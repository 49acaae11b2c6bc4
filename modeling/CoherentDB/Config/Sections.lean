import CoherentDB.Config.Blanks
import CoherentDB.Lib.FirstProblem

/-!
# The sections of the configuration

`global_config` reads the file with `ini_config` and then each of its sections, whose
constructors ask for their attributes one by one and end with `check_no_others`.

`lexical_cast` is a parameter.  `global_config_first_problem` says which attributes decide the
result: the constructor throws for the first problem, in the order of its requests and then of
the names in the file, and without a problem it returns the values of the file.
-/

namespace CoherentDB
namespace Config

open Debug Util Containers FirstProblem

/-- `ini_config::get_attribute_names`: from the lower bound on, as long as the section is the
same. -/
def getAttributeNames (values : ValueMap) (sect : Text) : List Text :=
  ((values.entries.dropWhile fun entry => entry.key < idOrder sect []).takeWhile
    fun entry => entry.sect = sect).map Entry.attr

/-- `ini_config::get_value`. -/
def iniGetValue (values : ValueMap) (sect attr : Text) : Except ConfigFailure Text :=
  match values.find? (idOrder sect attr) with
  | none => .error .assertion
  | some entry => .ok entry.val

/-- A text of the file in a message. -/
def textString (text : Text) : String := String.ofList (text.map fun c => Char.ofNat c.toNat)

/-- The text of an exception about an attribute. -/
def attributeError (sect : String) (attr : String) (what : String) : ConfigFailure :=
  .exception noLine ("section " ++ sect ++ ", attribute " ++ attr ++ ": " ++ what)

/-- A `config_section_base`; `valid_names` is a set whose order is never asked for. -/
structure ConfigSection where
  conf : ValueMap
  name : String
  validNames : List Text
  presentNames : OrderedTable Text order

/-- The constructor of `config_section_base`. -/
def configSectionBase (sect : String) (conf : ValueMap) : ConfigSection :=
  ⟨conf, sect, [], (getAttributeNames conf (chars sect)).foldl OrderedTable.insert .empty⟩

namespace ConfigSection

variable {α : Type} (s : ConfigSection) (lexicalCast : Text → Option α) (name : String)

/-- The insertion into `valid_names` at the start of `get_value`. -/
def refer : Except ConfigFailure ConfigSection := do
  dAssertElse .assertion (chars name ∉ s.validNames)
  return { s with validNames := chars name :: s.validNames }

/-- The cast of a present attribute. -/
def castValue : Except ConfigFailure α := do
  let text ← iniGetValue s.conf (chars s.name) (chars name)
  match lexicalCast text with
  | some value => .ok value
  | none => .error (attributeError s.name name "invalid value")

/-- `get_value` of a required attribute. -/
def getValue : Except ConfigFailure (α × ConfigSection) := do
  let s ← s.refer name
  if chars name ∈ s.presentNames then do
    let value ← s.castValue lexicalCast name
    return (value, s)
  else .error (attributeError s.name name "required attribute not present")

/-- `get_value` with a default. -/
def getValueOr (default : α) : Except ConfigFailure (α × ConfigSection) := do
  let s ← s.refer name
  if chars name ∈ s.presentNames then do
    let value ← s.castValue lexicalCast name
    return (value, s)
  else return (default, s)

def checkNoOthers : Except ConfigFailure Unit :=
  s.presentNames.entries.forM fun name =>
    if name ∈ s.validNames then .ok ()
    else .error (attributeError s.name (textString name) "unknown attribute")

end ConfigSection

structure BufferCacheSect where
  size : UInt64
  syncerSleepTime : UInt16
  deriving DecidableEq

structure MemoryManagerSect where
  ramLimitBytes : UInt64
  totalLimitBytes : UInt64
  defaultSessionRamLimitBytes : UInt64
  defaultSessionTotalLimitBytes : UInt64
  maxSmallAllocPages1024 : UInt16
  singleSmallAllocPages : UInt16
  deriving DecidableEq

structure GlobalConfig where
  bufferCache : BufferCacheSect
  memoryManager : MemoryManagerSect
  deriving DecidableEq

section Sections

variable (cast64 : Text → Option UInt64) (cast16 : Text → Option UInt16)

def bufferCacheSect (conf : ValueMap) : Except ConfigFailure BufferCacheSect := do
  let s := configSectionBase "buffer_cache" conf
  let (size, s) ← s.getValue cast64 "size"
  let (syncerSleepTime, s) ← s.getValueOr cast16 "syncer_sleep_time" 30
  s.checkNoOthers
  return ⟨size, syncerSleepTime⟩

def memoryManagerSect (conf : ValueMap) : Except ConfigFailure MemoryManagerSect := do
  let s := configSectionBase "memory_manager" conf
  let (ramLimitBytes, s) ← s.getValue cast64 "ram_limit_bytes"
  let (totalLimitBytes, s) ← s.getValue cast64 "total_limit_bytes"
  let (defaultSessionRamLimitBytes, s) ← s.getValue cast64 "default_session_ram_limit_bytes"
  let (defaultSessionTotalLimitBytes, s) ← s.getValue cast64 "default_session_total_limit_bytes"
  let (maxSmallAllocPages1024, s) ← s.getValue cast16 "max_small_alloc_pages_1024"
  let (singleSmallAllocPages, s) ← s.getValue cast16 "single_small_alloc_pages"
  s.checkNoOthers
  return ⟨ramLimitBytes, totalLimitBytes, defaultSessionRamLimitBytes,
    defaultSessionTotalLimitBytes, maxSmallAllocPages1024, singleSmallAllocPages⟩

/-- `global_config::global_config` for a file with the given content, or none where it cannot be
opened. -/
def globalConfig (file : String) (content : Option Text) : Except ConfigFailure GlobalConfig := do
  let conf ← iniConfig file content
  let bufferCache ← bufferCacheSect cast64 cast16 conf
  let memoryManager ← memoryManagerSect cast64 cast16 conf
  return ⟨bufferCache, memoryManager⟩

end Sections

/-! ### The attributes of a section -/

section Names

variable {values : ValueMap} {sect attr : Text} {entry : Entry}

theorem not_lt_bound_iff : ¬ entry.key < idOrder sect [] ↔ order sect ≤ order entry.sect := by
  rw [not_lt, idOrder, Entry.key, idOrder, Prod.Lex.toLex_le_toLex]
  constructor
  · rintro (hlt | ⟨heq, -⟩)
    · exact hlt.le
    · exact heq.le
  · intro hle
    rcases hle.lt_or_eq with hlt | heq
    · exact .inl hlt
    · exact .inr ⟨heq, nil_le_order _⟩

/-- In a list in the order of the keys the entries of a section stand together. -/
theorem takeWhile_dropWhile_sect (sect : Text) :
    ∀ {l : List Entry}, l.Pairwise (fun a b => a.key < b.key) →
      (l.dropWhile fun entry => entry.key < idOrder sect []).takeWhile
        (fun entry => entry.sect = sect) = l.filter fun entry => entry.sect = sect
  | [], _ => rfl
  | entry :: rest, hsorted => by
      obtain ⟨hhead, htail⟩ := List.pairwise_cons.mp hsorted
      have ih := takeWhile_dropWhile_sect sect htail
      by_cases hbefore : entry.key < idOrder sect []
      · have hne : entry.sect ≠ sect := by
          rintro rfl
          exact not_lt_bound_iff.mpr le_rfl hbefore
        rw [List.dropWhile_cons_of_pos (by simpa using hbefore),
          List.filter_cons_of_neg (by simpa using hne)]
        exact ih
      · -- From here on nothing lies below the bound.
        have hall : ∀ other ∈ rest, ¬ other.key < idOrder sect [] := fun other hother =>
          not_lt.mpr ((not_lt.mp hbefore).trans (hhead other hother).le)
        have hrest : rest.dropWhile (fun entry => entry.key < idOrder sect []) = rest :=
          List.dropWhile_eq_self_iff.mpr fun hpos => by simpa using hall _ (List.getElem_mem hpos)
        rw [List.dropWhile_cons_of_neg (by simpa using hbefore)]
        rw [hrest] at ih
        by_cases hsame : entry.sect = sect
        · rw [List.takeWhile_cons_of_pos (by simpa using hsame),
            List.filter_cons_of_pos (by simpa using hsame), ih]
        · rw [List.takeWhile_cons_of_neg (by simpa using hsame),
            List.filter_cons_of_neg (by simpa using hsame), eq_comm, List.filter_eq_nil_iff]
          intro other hother hsect
          have hlt : order sect < order entry.sect :=
            lt_of_le_of_ne (not_lt_bound_iff.mp hbefore)
              fun heq => hsame (order_injective heq).symm
          have hle : order entry.sect ≤ order other.sect :=
            Prod.Lex.monotone_fst _ _ (hhead other hother).le
          rw [of_decide_eq_true hsect] at hle
          exact absurd hlt (not_lt.mpr hle)

theorem getAttributeNames_eq (values : ValueMap) (sect : Text) :
    getAttributeNames values sect =
      (values.entries.filter fun entry => entry.sect = sect).map Entry.attr := by
  rw [getAttributeNames, takeWhile_dropWhile_sect sect values.sorted]

theorem mem_getAttributeNames :
    attr ∈ getAttributeNames values sect ↔ ∃ entry ∈ values, entry.id = (sect, attr) := by
  rw [getAttributeNames_eq, List.mem_map]
  constructor
  · rintro ⟨entry, hmem, rfl⟩
    obtain ⟨hentry, hsect⟩ := List.mem_filter.mp hmem
    exact ⟨entry, hentry, by rw [Entry.id, of_decide_eq_true hsect]⟩
  · rintro ⟨entry, hmem, hid⟩
    obtain ⟨hsect, hattr⟩ := Prod.ext_iff.mp hid
    exact ⟨entry, List.mem_filter.mpr ⟨hmem, decide_eq_true hsect⟩, hattr⟩

/-- The names come in order and once each. -/
theorem getAttributeNames_sorted (values : ValueMap) (sect : Text) :
    (getAttributeNames values sect).Pairwise fun a b => order a < order b := by
  rw [getAttributeNames_eq, List.pairwise_map]
  have hsorted := values.sorted.filter fun entry => entry.sect = sect
  refine hsorted.imp_of_mem fun {a b} ha hb hlt => ?_
  have hsectA := of_decide_eq_true (List.mem_filter.mp ha).2
  have hsectB := of_decide_eq_true (List.mem_filter.mp hb).2
  rw [Entry.key, Entry.key, hsectA, hsectB, idOrder, idOrder, Prod.Lex.toLex_lt_toLex] at hlt
  rcases hlt with hlt | ⟨-, hlt⟩
  · exact absurd hlt (lt_irrefl _)
  · exact hlt

theorem mem_foldl_insert {l : List Text} {names : OrderedTable Text order} {name : Text} :
    name ∈ l.foldl OrderedTable.insert names ↔ name ∈ names ∨ name ∈ l := by
  induction l generalizing names with
  | nil => simp
  | cons x rest ih =>
      rw [List.foldl_cons, ih, OrderedTable.mem_insert order_injective, List.mem_cons]
      tauto

theorem nodup_of_order {l : List Text} (h : l.Pairwise fun a b => order a < order b) :
    l.Nodup := by
  refine h.imp ?_
  rintro a _ hlt rfl
  exact lt_irrefl _ hlt

/-- `present_names` has the names of the attributes in their order. -/
theorem presentNames_eq (sect : String) (conf : ValueMap) :
    (configSectionBase sect conf).presentNames.entries = getAttributeNames conf (chars sect) := by
  have hsorted := getAttributeNames_sorted conf (chars sect)
  have hpresent := (configSectionBase sect conf).presentNames.sorted
  refine List.Perm.eq_of_pairwise ?_ hpresent hsorted ?_
  · intro a b _ _ hab hba
    exact absurd hab hba.asymm
  · rw [List.perm_ext_iff_of_nodup (nodup_of_order hpresent) (nodup_of_order hsorted)]
    intro name
    rw [← OrderedTable.mem_def, configSectionBase, mem_foldl_insert]
    simp

end Names

/-! ### The problems of a section -/

/-- An attribute that a section asks for. -/
structure Request where
  name : String
  required : Bool
  castable : Text → Bool

/-- The text of an attribute in the map. -/
def textOf (conf : ValueMap) (sect attr : String) : Option Text :=
  (conf.find? (idOrder (chars sect) (chars attr))).map Entry.val

/-- The value of an attribute in the map, if it is there and can be cast. -/
def castOf {α : Type} (lexicalCast : Text → Option α) (conf : ValueMap) (sect attr : String) :
    Option α :=
  (textOf conf sect attr).bind lexicalCast

/-- What is wrong with an attribute that is asked for. -/
def Request.problem (conf : ValueMap) (sect : String) (r : Request) : Option ConfigFailure :=
  match textOf conf sect r.name with
  | none =>
      if r.required then some (attributeError sect r.name "required attribute not present") else none
  | some text => if r.castable text then none else some (attributeError sect r.name "invalid value")

/-- What is wrong with a name that the section has. -/
def unknownProblem (sect : String) (asked : List String) (name : Text) : Option ConfigFailure :=
  if name ∈ asked.map chars then none
  else some (attributeError sect (textString name) "unknown attribute")

/-- The problems of a section in the order in which its constructor comes to them. -/
def sectionProblems (conf : ValueMap) (sect : String) (requests : List Request) :
    List ConfigFailure :=
  requests.flatMap (fun r => (r.problem conf sect).toList) ++
    (getAttributeNames conf (chars sect)).filterMap (unknownProblem sect (requests.map Request.name))

namespace ConfigSection

/-- A section of `conf` that has asked for the attributes `asked`. -/
structure Asked (s : ConfigSection) (conf : ValueMap) (sect : String) (asked : List String) :
    Prop where
  conf_eq : s.conf = conf
  name_eq : s.name = sect
  validNames : ∀ name, name ∈ s.validNames ↔ name ∈ asked.map chars
  presentNames : s.presentNames.entries = getAttributeNames conf (chars sect)

section Requests

variable {s : ConfigSection} {conf : ValueMap} {sect name : String} {asked : List String} {α : Type}
  {lexicalCast : Text → Option α}

theorem asked_base (sect : String) (conf : ValueMap) :
    (configSectionBase sect conf).Asked conf sect [] :=
  ⟨rfl, rfl, fun _ => by simp [configSectionBase], presentNames_eq sect conf⟩

/-- An attribute is asked for only once, so the assertion holds. -/
theorem Asked.refer (h : s.Asked conf sect asked) (hnew : chars name ∉ asked.map chars) :
    ∃ s', s.refer name = .ok s' ∧ s'.Asked conf sect (asked ++ [name]) := by
  have hvalid : chars name ∉ s.validNames := fun hmem => hnew ((h.validNames _).mp hmem)
  refine ⟨{ s with validNames := chars name :: s.validNames }, ?_, h.conf_eq, h.name_eq, ?_,
    h.presentNames⟩
  · rw [ConfigSection.refer, dAssertElse_of hvalid, ok_bind]
    rfl
  · intro other
    rw [List.map_append, List.mem_append, List.mem_cons, h.validNames, or_comm, List.map_singleton,
      List.mem_singleton]

theorem Asked.mem_presentNames (h : s.Asked conf sect asked) :
    chars name ∈ s.presentNames ↔ ∃ text, textOf conf sect name = some text := by
  rw [OrderedTable.mem_def, h.presentNames, mem_getAttributeNames, ← find?_isSome_iff,
    Option.isSome_iff_exists, textOf]
  simp only [Option.map_eq_some_iff]
  constructor
  · rintro ⟨entry, hentry⟩
    exact ⟨entry.val, entry, hentry, rfl⟩
  · rintro ⟨_, entry, hentry, -⟩
    exact ⟨entry, hentry⟩

/-- The cast finds the text of a present attribute. -/
theorem Asked.castValue (h : s.Asked conf sect asked) {text : Text}
    (htext : textOf conf sect name = some text) :
    s.castValue lexicalCast name = match lexicalCast text with
      | some value => .ok value
      | none => .error (attributeError sect name "invalid value") := by
  obtain ⟨entry, hentry, rfl⟩ := Option.map_eq_some_iff.mp htext
  have hfound : iniGetValue s.conf (chars s.name) (chars name) = .ok entry.val := by
    rw [iniGetValue, h.conf_eq, h.name_eq, hentry]
  rw [ConfigSection.castValue, hfound, ok_bind, h.name_eq]

/-- The attribute is there, and its cast decides. -/
theorem Asked.getPresent (h : s.Asked conf sect asked) {text : Text}
    (htext : textOf conf sect name = some text) (required : Bool) :
    Reports (Request.problem conf sect
        ⟨name, required, fun text => (lexicalCast text).isSome⟩).toList
      (fun res => castOf lexicalCast conf sect name = some res.1 ∧ res.2.Asked conf sect asked)
      (do
        let value ← s.castValue lexicalCast name
        return (value, s)) := by
  rw [Request.problem, htext, h.castValue htext]
  cases hcast : lexicalCast text with
  | none =>
      simp only [hcast, Option.isSome_none, Bool.false_eq_true, if_false, Option.toList_some]
      rfl
  | some value =>
      simp only [hcast, Option.isSome_some, if_true, Option.toList_none]
      refine ⟨(value, s), rfl, ?_, h⟩
      rw [castOf, htext]
      exact hcast

/-- A required attribute. -/
theorem Asked.getValue (h : s.Asked conf sect asked) (hnew : chars name ∉ asked.map chars) :
    Reports (Request.problem conf sect ⟨name, true, fun text => (lexicalCast text).isSome⟩).toList
      (fun res => castOf lexicalCast conf sect name = some res.1 ∧
        res.2.Asked conf sect (asked ++ [name]))
      (s.getValue lexicalCast name) := by
  obtain ⟨s', hrefer, hs'⟩ := h.refer hnew
  rw [ConfigSection.getValue, hrefer, ok_bind]
  cases htext : textOf conf sect name with
  | none =>
      have habsent : chars name ∉ s'.presentNames := by
        rw [hs'.mem_presentNames, htext]
        simp
      rw [if_neg habsent, hs'.name_eq, Request.problem, htext]
      rfl
  | some text =>
      rw [if_pos (hs'.mem_presentNames.mpr ⟨text, htext⟩)]
      exact hs'.getPresent htext true

/-- An attribute with a default. -/
theorem Asked.getValueOr (h : s.Asked conf sect asked) (hnew : chars name ∉ asked.map chars)
    (default : α) :
    Reports (Request.problem conf sect ⟨name, false, fun text => (lexicalCast text).isSome⟩).toList
      (fun res => (castOf lexicalCast conf sect name).getD default = res.1 ∧
        res.2.Asked conf sect (asked ++ [name]))
      (s.getValueOr lexicalCast name default) := by
  obtain ⟨s', hrefer, hs'⟩ := h.refer hnew
  rw [ConfigSection.getValueOr, hrefer, ok_bind]
  cases htext : textOf conf sect name with
  | none =>
      have habsent : chars name ∉ s'.presentNames := by
        rw [hs'.mem_presentNames, htext]
        simp
      rw [if_neg habsent, Request.problem, htext]
      exact ⟨(default, s'), rfl, by rw [castOf, htext]; rfl, hs'⟩
  | some text =>
      rw [if_pos (hs'.mem_presentNames.mpr ⟨text, htext⟩)]
      refine (hs'.getPresent htext false).mono ?_
      rintro res ⟨hcast, hasked⟩
      exact ⟨by rw [hcast]; rfl, hasked⟩

/-- The names of the section that nobody has asked for. -/
theorem Asked.checkNoOthers (h : s.Asked conf sect asked) :
    Reports ((getAttributeNames conf (chars sect)).filterMap (unknownProblem sect asked))
      (fun _ => True) s.checkNoOthers := by
  rw [ConfigSection.checkNoOthers, h.presentNames]
  refine Reports.forM ?_ _
  intro name
  by_cases hvalid : name ∈ s.validNames
  · rw [if_pos hvalid, unknownProblem, if_pos ((h.validNames name).mp hvalid)]
    exact .pure trivial
  · rw [if_neg hvalid, unknownProblem, if_neg fun hmem => hvalid ((h.validNames name).mpr hmem),
      h.name_eq]
    rfl

end Requests

end ConfigSection

/-! ### The two sections -/

section Sections

variable (cast64 : Text → Option UInt64) (cast16 : Text → Option UInt16)

/-- What `buffer_cache_sect` asks for. -/
def bufferCacheRequests : List Request :=
  [⟨"size", true, fun text => (cast64 text).isSome⟩,
    ⟨"syncer_sleep_time", false, fun text => (cast16 text).isSome⟩]

/-- What `memory_manager_sect` asks for. -/
def memoryManagerRequests : List Request :=
  [⟨"ram_limit_bytes", true, fun text => (cast64 text).isSome⟩,
    ⟨"total_limit_bytes", true, fun text => (cast64 text).isSome⟩,
    ⟨"default_session_ram_limit_bytes", true, fun text => (cast64 text).isSome⟩,
    ⟨"default_session_total_limit_bytes", true, fun text => (cast64 text).isSome⟩,
    ⟨"max_small_alloc_pages_1024", true, fun text => (cast16 text).isSome⟩,
    ⟨"single_small_alloc_pages", true, fun text => (cast16 text).isSome⟩]

/-- The section has the values of the map. -/
structure BufferCacheSect.Reads (conf : ValueMap) (sect : BufferCacheSect) : Prop where
  size : castOf cast64 conf "buffer_cache" "size" = some sect.size
  syncerSleepTime :
    (castOf cast16 conf "buffer_cache" "syncer_sleep_time").getD 30 = sect.syncerSleepTime

structure MemoryManagerSect.Reads (conf : ValueMap) (sect : MemoryManagerSect) : Prop where
  ramLimitBytes :
    castOf cast64 conf "memory_manager" "ram_limit_bytes" = some sect.ramLimitBytes
  totalLimitBytes :
    castOf cast64 conf "memory_manager" "total_limit_bytes" = some sect.totalLimitBytes
  defaultSessionRamLimitBytes :
    castOf cast64 conf "memory_manager" "default_session_ram_limit_bytes" =
      some sect.defaultSessionRamLimitBytes
  defaultSessionTotalLimitBytes :
    castOf cast64 conf "memory_manager" "default_session_total_limit_bytes" =
      some sect.defaultSessionTotalLimitBytes
  maxSmallAllocPages1024 :
    castOf cast16 conf "memory_manager" "max_small_alloc_pages_1024" =
      some sect.maxSmallAllocPages1024
  singleSmallAllocPages :
    castOf cast16 conf "memory_manager" "single_small_alloc_pages" =
      some sect.singleSmallAllocPages

/-- The problems of a section, one request after the other. -/
theorem sectionProblems_eq (conf : ValueMap) (sect : String) (requests : List Request) :
    sectionProblems conf sect requests =
      requests.foldr (fun r problems => (r.problem conf sect).toList ++ problems)
        ((getAttributeNames conf (chars sect)).filterMap
          (unknownProblem sect (requests.map Request.name)) ++ []) := by
  rw [sectionProblems, List.append_nil]
  generalize (getAttributeNames conf (chars sect)).filterMap _ = unknown
  induction requests with
  | nil => rfl
  | cons r rest ih => rw [List.flatMap_cons, List.append_assoc, ih, List.foldr_cons]

theorem bufferCacheSect_reports (conf : ValueMap) :
    Reports (sectionProblems conf "buffer_cache" (bufferCacheRequests cast64 cast16))
      (BufferCacheSect.Reads cast64 cast16 conf) (bufferCacheSect cast64 cast16 conf) := by
  rw [sectionProblems_eq]
  refine Reports.bind ((ConfigSection.asked_base _ conf).getValue (by decide)) ?_
  rintro ⟨size, s⟩ ⟨hsize, hs⟩
  refine Reports.bind (hs.getValueOr (by decide) 30) ?_
  rintro ⟨syncerSleepTime, s⟩ ⟨hsleep, hs⟩
  refine Reports.bind hs.checkNoOthers fun _ _ => ?_
  exact .pure ⟨hsize, hsleep⟩

theorem memoryManagerSect_reports (conf : ValueMap) :
    Reports (sectionProblems conf "memory_manager" (memoryManagerRequests cast64 cast16))
      (MemoryManagerSect.Reads cast64 cast16 conf) (memoryManagerSect cast64 cast16 conf) := by
  rw [sectionProblems_eq]
  refine Reports.bind ((ConfigSection.asked_base _ conf).getValue (by decide)) ?_
  rintro ⟨ramLimitBytes, s⟩ ⟨hram, hs⟩
  refine Reports.bind (hs.getValue (by decide)) ?_
  rintro ⟨totalLimitBytes, s⟩ ⟨htotal, hs⟩
  refine Reports.bind (hs.getValue (by decide)) ?_
  rintro ⟨defaultSessionRamLimitBytes, s⟩ ⟨hsessionRam, hs⟩
  refine Reports.bind (hs.getValue (by decide)) ?_
  rintro ⟨defaultSessionTotalLimitBytes, s⟩ ⟨hsessionTotal, hs⟩
  refine Reports.bind (hs.getValue (by decide)) ?_
  rintro ⟨maxSmallAllocPages1024, s⟩ ⟨hmax, hs⟩
  refine Reports.bind (hs.getValue (by decide)) ?_
  rintro ⟨singleSmallAllocPages, s⟩ ⟨hsingle, hs⟩
  refine Reports.bind hs.checkNoOthers fun _ _ => ?_
  exact .pure ⟨hram, htotal, hsessionRam, hsessionTotal, hmax, hsingle⟩

/-- What is wrong with a file: that it cannot be parsed, or the problems of its sections. -/
def fileProblems (file : String) (content : Option Text) : List ConfigFailure :=
  match iniConfig file content with
  | .error failure => [failure]
  | .ok conf =>
      sectionProblems conf "buffer_cache" (bufferCacheRequests cast64 cast16) ++
        sectionProblems conf "memory_manager" (memoryManagerRequests cast64 cast16)

/-- The configuration has the values of the file. -/
def GlobalConfig.Reads (file : String) (content : Option Text) (config : GlobalConfig) : Prop :=
  ∃ conf, iniConfig file content = .ok conf ∧ config.bufferCache.Reads cast64 cast16 conf ∧
    config.memoryManager.Reads cast64 cast16 conf

theorem sectionProblems_ne_assertion (conf : ValueMap) (sect : String) (requests : List Request) :
    .assertion ∉ sectionProblems conf sect requests := by
  intro hmem
  rcases List.mem_append.mp hmem with hrequest | hunknown
  · obtain ⟨r, -, hproblem⟩ := List.mem_flatMap.mp hrequest
    rw [Option.mem_toList, Request.problem] at hproblem
    split at hproblem
    · split_ifs at hproblem
      cases hproblem
    · split_ifs at hproblem
      cases hproblem
  · obtain ⟨name, -, hproblem⟩ := List.mem_filterMap.mp hunknown
    rw [unknownProblem] at hproblem
    split_ifs at hproblem
    cases hproblem

theorem iniConfig_ne_assertion (file : String) (content : Option Text) :
    iniConfig file content ≠ .error .assertion := by
  cases content with
  | none =>
      rintro ⟨⟩
  | some text =>
      rcases iniConfig_spec file text with ⟨-, values, hok, -⟩ | ⟨-, lineNo, descr, herror⟩
      · rw [hok]
        rintro ⟨⟩
      · rw [herror]
        rintro ⟨⟩

theorem fileProblems_ne_assertion (file : String) (content : Option Text) :
    .assertion ∉ fileProblems cast64 cast16 file content := by
  rw [fileProblems]
  cases hini : iniConfig file content with
  | error failure =>
      intro hmem
      rw [List.mem_singleton] at hmem
      exact iniConfig_ne_assertion file content (hmem ▸ hini)
  | ok conf =>
      intro hmem
      rcases List.mem_append.mp hmem with hfirst | hsecond
      · exact sectionProblems_ne_assertion _ _ _ hfirst
      · exact sectionProblems_ne_assertion _ _ _ hsecond

/-- **`global_config` throws for the first problem of the file**, in the order of the requests of
`buffer_cache` and then of `memory_manager`, each with the unknown names of its section behind
them in their order; without a problem it returns the values of the file and the default of
`syncer_sleep_time`.  No assertion fails, so that it throws nothing but `config_exception`. -/
theorem global_config_first_problem (file : String) (content : Option Text) :
    Reports (fileProblems cast64 cast16 file content)
        (GlobalConfig.Reads cast64 cast16 file content) (globalConfig cast64 cast16 file content) ∧
      .assertion ∉ fileProblems cast64 cast16 file content := by
  refine ⟨?_, fileProblems_ne_assertion cast64 cast16 file content⟩
  rw [fileProblems]
  cases hini : iniConfig file content with
  | error failure =>
      show globalConfig cast64 cast16 file content = .error failure
      rw [globalConfig, hini]
      rfl
  | ok conf =>
      have hsections := (bufferCacheSect_reports cast64 cast16 conf).bind fun bufferCache hbuffer =>
        (memoryManagerSect_reports cast64 cast16 conf).bind fun memoryManager hmemory =>
          Reports.pure (P := GlobalConfig.Reads cast64 cast16 file content)
            (a := ⟨bufferCache, memoryManager⟩) ⟨conf, hini, hbuffer, hmemory⟩
      rw [List.append_nil] at hsections
      rw [globalConfig, hini, ok_bind]
      exact hsections

end Sections

end Config
end CoherentDB
