import Mathlib
import PathQuery.Proofs.Alias
import PathQuery.Proofs.Binary64
import PathQuery.Proofs.Except
import PathQuery.Settings.Load

/-!
# The layer that an alias comes from

An alias is taken from the highest layer that sets it. A document hands a text over as it is. A
variable is first read as a truth value or a number, so an identifier that is a word for one of them
comes out in the spelling of that value; all other identifiers stay as they are.
-/

namespace PathQuery

open PathQuery.Text

/-! ## Identifiers in variables -/

theorem isDigit_of_isIdentifierStart {c : Char} (h : isIdentifierStart c = true) :
    c.isDigit = false := by
  simp only [isIdentifierStart, Char.isAlpha, Char.isUpper, Char.isLower, Bool.or_eq_true,
    Bool.and_eq_true, decide_eq_true_eq, beq_iff_eq, ge_iff_le, UInt32.le_iff_toNat_le] at h
  simp only [Char.isDigit, Bool.and_eq_false_iff, decide_eq_false_iff_not, ge_iff_le,
    UInt32.le_iff_toNat_le]
  rcases h with (hupper | hlower) | rfl
  · have hlow : 65 ≤ c.val.toNat := hupper.1
    exact .inr (show ¬ c.val.toNat ≤ 57 by omega)
  · have hlow : 97 ≤ c.val.toNat := hlower.1
    exact .inr (show ¬ c.val.toNat ≤ 57 by omega)
  · decide

/-- An identifier begins with what is no digit, no sign and no point. -/
theorem exists_cons_of_isIdentifier {s : String} (h : isIdentifier s = true) :
    ∃ c cs, s.toList = c :: cs ∧ c.isDigit = false ∧ c ∉ ['-', '+', '.'] := by
  unfold isIdentifier at h
  cases hs : s.toList with
  | nil => rw [hs] at h; cases h
  | cons c cs =>
    rw [hs] at h
    have hstart : isIdentifierStart c = true := (Bool.and_eq_true_iff.1 h).1
    refine ⟨c, cs, rfl, isDigit_of_isIdentifierStart hstart, fun hmem => ?_⟩
    simp only [List.mem_cons, List.not_mem_nil, or_false] at hmem
    rcases hmem with rfl | rfl | rfl <;> exact absurd hstart (by decide)

-- Lower case is the same for all readers of identifiers.
theorem map_toLower_of_isIdentifier {s : String} (h : isIdentifier s = true) :
    s.toList.map Char.toLower = (lower s).toList := by
  rw [lower, String.toList_ofList]
  refine List.map_congr_left fun c hc => ?_
  have hchar := isIdentifierChar_of_mem h hc
  have hne : c ≠ '\u212a' := by
    rintro rfl
    exact absurd hchar (by decide)
  rw [lowerChar, if_neg hne]

namespace Setting

/-- An identifier as it comes out of a variable. -/
def spelled (s : String) : String :=
  if lower s = "true" ∨ lower s = "false" then lower s
  else if lower s = "inf" ∨ lower s = "infinity" then "inf"
  else if lower s = "nan" then "NaN"
  else s

variable {s : String}

theorem whole?_of_isIdentifier (h : isIdentifier s = true) : whole? s = none := by
  obtain ⟨c, cs, hs, hdigit, hsign⟩ := exists_cons_of_isIdentifier h
  rw [whole?, hs]
  unfold integer?
  split
  next heq => cases heq; simp at hsign
  next heq => cases heq; simp at hsign
  next => simp [natural?, hdigit]

-- Of the numerals only the words without a digit can be identifiers.
theorem read?_of_isIdentifier (h : isIdentifier s = true) :
    Binary64.read? s.toList =
      if lower s = "inf" ∨ lower s = "infinity" then some (.infinity false)
      else if lower s = "nan" then some (.nan false)
      else none := by
  have hword (w : String) : s.toList.map Char.toLower = w.toList ↔ lower s = w := by
    rw [map_toLower_of_isIdentifier h, String.toList_inj]
  obtain ⟨c, cs, hs, hdigit, hsign⟩ := exists_cons_of_isIdentifier h
  simp only [List.mem_cons, List.not_mem_nil, or_false, not_or] at hsign
  obtain ⟨hminus, hplus, hpoint⟩ := hsign
  have hfinite : Binary64.finite? s.toList = none := by
    refine Option.eq_none_iff_forall_ne_some.2 fun l hl => ?_
    obtain ⟨d, rest, heq, hd⟩ := Binary64.exists_head (Binary64.isUnsigned_of_finite? hl)
    cases hs.symm.trans heq
    rcases hd with hd | hd
    · rw [hdigit] at hd
      cases hd
    · exact hpoint hd
  have hread : Binary64.readSign s.toList = (false, s.toList) := by
    rw [hs, Binary64.readSign_cons hminus hplus]
  have hinf : s.toList.map Char.toLower = ['i', 'n', 'f'] ↔ lower s = "inf" := hword "inf"
  have hinfinity : s.toList.map Char.toLower = ['i', 'n', 'f', 'i', 'n', 'i', 't', 'y'] ↔
    lower s = "infinity" := hword "infinity"
  have hnan : s.toList.map Char.toLower = ['n', 'a', 'n'] ↔ lower s = "nan" := hword "nan"
  rw [Binary64.read?, hread]
  show (Binary64.literal? s.toList).map (Binary64.ofLiteral false) = _
  rw [Binary64.literal?, hfinite]
  simp only [hinf, hinfinity, hnan]
  split_ifs <;> rfl

theorem asText?_ofVariable (h : isIdentifier s = true) :
    (ofVariable s).asText? = some (spelled s) := by
  have hinf : (Binary64.infinity false).display = ['i', 'n', 'f'] := by decide +kernel
  have hnan : (Binary64.nan false).display = ['N', 'a', 'N'] := by decide +kernel
  rw [ofVariable, whole?_of_isIdentifier h, read?_of_isIdentifier h, spelled]
  by_cases htrue : lower s = "true"
  · simp [htrue, asText?]
  by_cases hfalse : lower s = "false"
  · simp [hfalse, asText?]
  simp only [htrue, hfalse, if_false, or_self]
  by_cases hwide : lower s = "inf" ∨ lower s = "infinity"
  · simp only [if_pos hwide, asText?, hinf]
  by_cases hword : lower s = "nan"
  · simp only [if_neg hwide, if_pos hword, asText?, hnan]
  · simp only [if_neg hwide, if_neg hword, asText?]

/-- An identifier stays as it is unless it is another spelling of one of five words. -/
theorem spelled_eq_self_iff (s : String) :
    spelled s = s ↔ lower s ∈ ["true", "false", "inf", "infinity", "nan"] →
      s ∈ ["true", "false", "inf", "NaN"] := by
  simp only [List.mem_cons, List.not_mem_nil, or_false]
  constructor
  · intro heq hword
    rw [← heq]
    rcases hword with h | h | h | h | h <;> simp [spelled, h]
  · intro h
    by_cases hword : lower s = "true" ∨ lower s = "false" ∨ lower s = "inf" ∨
      lower s = "infinity" ∨ lower s = "nan"
    · rcases h hword with rfl | rfl | rfl | rfl <;> decide
    · simp only [not_or] at hword
      simp [spelled, hword]

end Setting

/-! ## Layers of documents -/

namespace Document

variable {doc top : Document} {name : String}

/-- What a document sets a field to in the end. -/
def last? (doc : Document) (name : String) : Option Setting :=
  (doc.filterMap fun f => if (KeyPath.ofKey f.1).name = name then some f.2 else none).getLast?

/-- Whatever sets the field sets it as a whole, and not to a table. -/
def Plain (doc : Document) (name : String) : Prop :=
  ∀ f ∈ doc, (KeyPath.ofKey f.1).name = name →
    (KeyPath.ofKey f.1).steps = [] ∧ ∀ fields, f.2 ≠ .table fields

-- A plain value takes the place of what was there.
theorem onto_of_ne_table {v : Setting} (h : ∀ fields, v ≠ .table fields) (old : Option Setting) :
    v.onto old = v := by
  cases v with
  | table fields => exact absurd rfl (h fields)
  | null | flag _ | whole _ | real _ | text _ | list => rfl

theorem get?_put_of_ne {key : String} (v : Setting) (h : (KeyPath.ofKey key).name ≠ name) :
    (doc.put key v).get? name = doc.get? name :=
  Fields.get?_insert_of_ne _ _ h.symm

theorem get?_put_self {key : String} {v : Setting} (hname : (KeyPath.ofKey key).name = name)
    (hsteps : (KeyPath.ofKey key).steps = []) (hv : ∀ fields, v ≠ .table fields) :
    (doc.put key v).get? name = some v := by
  rw [put, ← hname, hsteps, Setting.put, onto_of_ne_table hv, Fields.get?_insert_self]

/-- A field has what the upper document sets it to in the end, else what it had. -/
theorem get?_layer (h : top.Plain name) :
    (doc.layer top).get? name = (top.last? name).or (doc.get? name) := by
  induction top using List.reverseRecOn with
  | nil => rfl
  | append_singleton fs f ih =>
    have hfront : Document.Plain fs name := fun g hg => h g (List.mem_append_left _ hg)
    have hlast := h f (List.mem_append_right _ List.mem_cons_self)
    rw [layer, List.foldl_append, List.foldl_cons, List.foldl_nil, last?, List.filterMap_append]
    by_cases hname : (KeyPath.ofKey f.1).name = name
    · obtain ⟨hsteps, htable⟩ := hlast hname
      rw [get?_put_self hname hsteps htable]
      simp [hname]
    · rw [get?_put_of_ne _ hname]
      simp only [List.filterMap_cons, List.filterMap_nil, if_neg hname, List.append_nil]
      exact ih hfront

end Document

/-! ## Layers of variables -/

namespace Environment

variable {env : Environment} {name : String}

/-- The text of the last variable that sets a field. -/
def last? (env : Environment) (name : String) : Option String :=
  (env.filterMap fun v => (key? v.1).bind fun key =>
    if (KeyPath.ofKey key).name = name then some v.2 else none).getLast?

/-- Whatever variable sets the field sets it as a whole, and to an identifier. -/
def Names (env : Environment) (name : String) : Prop :=
  ∀ v ∈ env, ∀ key, key? v.1 = some key → (KeyPath.ofKey key).name = name →
    (KeyPath.ofKey key).steps = [] ∧ isIdentifier v.2 = true

theorem last?_document (env : Environment) (name : String) :
    env.document.last? name = (env.last? name).map Setting.ofVariable := by
  rw [Document.last?, document, List.filterMap_filterMap, last?, ← List.getLast?_map,
    List.map_filterMap]
  congr 2
  funext v
  cases key? v.1 with
  | none => rfl
  | some key =>
    dsimp only [Option.map_some, Option.bind_some]
    split_ifs <;> rfl

theorem ofVariable_ne_table (s : String) (fields : List (String × Setting)) :
    Setting.ofVariable s ≠ .table fields := by
  unfold Setting.ofVariable
  split_ifs
  · nofun
  · nofun
  · split <;> nofun

theorem Names.plain (h : env.Names name) : env.document.Plain name := by
  intro f hf hname
  obtain ⟨v, hv, hfield⟩ := List.mem_filterMap.1 hf
  obtain ⟨key, hkey, rfl⟩ := Option.map_eq_some_iff.1 hfield
  exact ⟨(h v hv key hkey hname).1, ofVariable_ne_table v.2⟩

theorem Names.isIdentifier {s : String} (h : env.Names name) (hs : env.last? name = some s) :
    isIdentifier s = true := by
  obtain ⟨v, hv, hset⟩ := List.mem_filterMap.1 (List.mem_of_getLast? hs)
  obtain ⟨key, hkey, hset⟩ := Option.bind_eq_some_iff.1 hset
  split_ifs at hset with hname
  cases hset
  exact (h v hv key hkey hname).2

end Environment

/-! ## Aliases from layers -/

namespace Settings

variable {doc : Document} {env : Environment} {files : Files} {path content : String}
  {loaded : Loaded}

/-- The text of a field comes from the highest layer that sets it: from the last variable that does,
in the spelling of its value, which is its own unless it is another spelling of one of five words,
else from the document, else from the standard settings. -/
structure Chosen (doc : Document) (env : Environment) (name standard chosen : String) : Prop where
  fromVariable : ∀ s, env.last? name = some s → chosen = Setting.spelled s ∧
    (chosen = s ↔ lower s ∈ ["true", "false", "inf", "infinity", "nan"] →
      s ∈ ["true", "false", "inf", "NaN"])
  fromDocument : env.last? name = none → ∀ v, doc.last? name = some v → v.asText? = some chosen
  fromStandard : env.last? name = none → doc.last? name = none → chosen = standard

theorem chosen_of_layers {name s chosen : String} (hdoc : doc.Plain name) (henv : env.Names name)
    (hstandard : standard.toDocument.get? name = some (.text s))
    (h : (((standard.toDocument.layer doc).layer env.document).get? name).bind Setting.asText? =
      some chosen) : Chosen doc env name s chosen := by
  rw [Document.get?_layer henv.plain, Document.get?_layer hdoc, Environment.last?_document,
    hstandard] at h
  refine ⟨fun t ht => ?_, fun hnone v hv => ?_, fun hnone hnothing => ?_⟩
  · rw [ht] at h
    have hspelled : (Setting.ofVariable t).asText? = some chosen := h
    rw [Setting.asText?_ofVariable (henv.isIdentifier ht), Option.some.injEq] at hspelled
    rw [← hspelled]
    exact ⟨rfl, Setting.spelled_eq_self_iff t⟩
  · rw [hnone, hv] at h
    exact h
  · rw [hnone, hnothing] at h
    cases h
    rfl

theorem readField_eq_ok {α : Type} {source : String} {key : SettingKey} {read : Setting → Option α}
    {a : α} (h : readField source doc key read = .ok a) :
    (doc.get? key.name).bind read = some a := by
  unfold readField at h
  split at h
  next b hb => cases h; exact hb
  next => cases h

-- What is loaded has been read from the layers and is valid.
theorem loadFile_eq_ok_iff (hfile : files path = .file content)
    (hdoc : Document.ofFile? path content = some doc) :
    loadFile files path env = .ok loaded ↔
      ofDocument path ((standard.toDocument.layer doc).layer env.document) = .ok loaded.settings ∧
        loaded.settings.validate = .ok () ∧ loaded.source = some path := by
  have hload : loadFile files path env = (do
      let settings ← ofDocument path ((standard.toDocument.layer doc).layer env.document)
      settings.validate
      return ⟨settings, some path⟩) := by
    simp only [loadFile, loadLayers, document, hfile, hdoc]
    rfl
  rw [hload, Except.bind_eq_ok_iff]
  constructor
  · rintro ⟨settings, hsettings, run⟩
    obtain ⟨⟨⟩, hvalid, hloaded⟩ := Except.bind_eq_ok_iff.1 run
    cases hloaded
    exact ⟨hsettings, hvalid, rfl⟩
  · rintro ⟨hsettings, hvalid, hsource⟩
    refine ⟨_, hsettings, Except.bind_eq_ok_iff.2 ⟨(), hvalid, ?_⟩⟩
    rw [← hsource]
    rfl

theorem aliases_of_ofDocument {source : String} {settings : Settings}
    (h : ofDocument source doc = .ok settings) :
    (doc.get? SettingKey.rootAlias.name).bind Setting.asText? = some settings.rootAlias ∧
      (doc.get? SettingKey.stem.name).bind Setting.asText? = some settings.stem := by
  obtain ⟨rootAlias, hroot, h⟩ := Except.bind_eq_ok_iff.1 h
  obtain ⟨stem, hstem, h⟩ := Except.bind_eq_ok_iff.1 h
  obtain ⟨joinKind, -, h⟩ := Except.bind_eq_ok_iff.1 h
  obtain ⟨logSql, -, h⟩ := Except.bind_eq_ok_iff.1 h
  cases h
  exact ⟨readField_eq_ok hroot, readField_eq_ok hstem⟩

/-- Each alias of what is loaded from a document and variables comes from the highest layer that
sets it, whatever the other alias comes from. What is loaded is valid. -/
theorem aliases_of_loadFile (hfile : files path = .file content)
    (hdoc : Document.ofFile? path content = some doc)
    (hroot : doc.Plain SettingKey.rootAlias.name ∧ env.Names SettingKey.rootAlias.name)
    (hstem : doc.Plain SettingKey.stem.name ∧ env.Names SettingKey.stem.name)
    (run : loadFile files path env = .ok loaded) :
    Chosen doc env SettingKey.rootAlias.name standard.rootAlias loaded.settings.rootAlias ∧
      Chosen doc env SettingKey.stem.name standard.stem loaded.settings.stem ∧
      loaded.settings.validate = .ok () := by
  obtain ⟨hsettings, hvalid, -⟩ := (loadFile_eq_ok_iff hfile hdoc).1 run
  obtain ⟨hrootAlias, hstemAlias⟩ := aliases_of_ofDocument hsettings
  exact ⟨chosen_of_layers hroot.1 hroot.2 rfl hrootAlias,
    chosen_of_layers hstem.1 hstem.2 rfl hstemAlias, hvalid⟩

/-- A document that sets the root alias. -/
def aliasFile : Files := fun _ => .file "root_alias = \"from_file\""

def aliasDocument : Document :=
  [("root_alias", .text "from_file")]

theorem ofFile?_aliasFile :
    Document.ofFile? "criteria.toml" "root_alias = \"from_file\"" = some aliasDocument := by
  cbv

theorem loadFile_aliasFile {settings : Settings} (top : Document) (htop : env.document = top)
    (hsettings : ofDocument "criteria.toml"
      ((standard.toDocument.layer aliasDocument).layer top) = .ok settings)
    (hvalid : settings.validate = .ok ()) :
    loadFile aliasFile "criteria.toml" env = .ok ⟨settings, some "criteria.toml"⟩ := by
  have hfile : aliasFile "criteria.toml" = .file "root_alias = \"from_file\"" := rfl
  rw [← htop] at hsettings
  exact (loadFile_eq_ok_iff hfile ofFile?_aliasFile).2 ⟨hsettings, hvalid, rfl⟩

/-- A variable that sets what generated aliases begin with. -/
def prefixVariables : Environment :=
  [("FLUENT_CRITERIA_ALIAS_PREFIX", "from_env")]

-- The prefix comes from the variable, the root alias from the document.
theorem aliases_of_loadFile_prefix :
    loadFile aliasFile "criteria.toml" prefixVariables =
        .ok ⟨⟨"from_file", "from_env", .inner, false⟩, some "criteria.toml"⟩ ∧
      Chosen aliasDocument prefixVariables "root_alias" "this" "from_file" ∧
      Chosen aliasDocument prefixVariables "alias_prefix" "alias_" "from_env" := by
  have hkey : Environment.key? "FLUENT_CRITERIA_ALIAS_PREFIX" = some "alias_prefix" := by cbv
  have hplain (name : String) : aliasDocument.Plain name := by
    intro f hf _
    cases List.mem_singleton.1 hf
    have hsteps : (KeyPath.ofKey "root_alias").steps = [] := by cbv
    exact ⟨hsteps, fun table h => by cases h⟩
  have hnames (name : String) : prefixVariables.Names name := by
    intro v hv key hset _
    cases List.mem_singleton.1 hv
    rw [hkey] at hset
    cases hset
    have hsteps : (KeyPath.ofKey "alias_prefix").steps = [] := by cbv
    exact ⟨hsteps, by decide⟩
  have run : loadFile aliasFile "criteria.toml" prefixVariables =
      .ok ⟨⟨"from_file", "from_env", .inner, false⟩, some "criteria.toml"⟩ := by
    refine loadFile_aliasFile [("alias_prefix", .text "from_env")] (by cbv) (by cbv) ?_
    rw [validate, if_neg (by decide), if_neg (by decide), if_neg (by decide)]
  have hfile : aliasFile "criteria.toml" = .file "root_alias = \"from_file\"" := rfl
  obtain ⟨hroot, hstem, -⟩ := aliases_of_loadFile hfile ofFile?_aliasFile
    ⟨hplain _, hnames _⟩ ⟨hplain _, hnames _⟩ run
  exact ⟨run, hroot, hstem⟩

/-- A variable that spells a number in its own way does not come out character for character. -/
theorem loadFile_nan :
    isIdentifier "nan" = true ∧ ∃ loaded, loadFile aliasFile "criteria.toml"
        [("FLUENT_CRITERIA_ROOT_ALIAS", "nan")] = .ok loaded ∧
      loaded.settings.rootAlias = "NaN" ∧ loaded.settings.rootAlias ≠ "nan" := by
  have run : loadFile aliasFile "criteria.toml" [("FLUENT_CRITERIA_ROOT_ALIAS", "nan")] =
      .ok ⟨⟨"NaN", "alias_", .inner, false⟩, some "criteria.toml"⟩ := by
    refine loadFile_aliasFile [("root_alias", .real (.nan false))] (by cbv) (by cbv) ?_
    rw [validate, if_neg (by decide), if_neg (by decide), if_neg (by decide)]
  exact ⟨by decide, _, run, rfl, by decide⟩

end Settings

end PathQuery
