import CoherentDB.Config.LineFormat

/-!
# The grammar of config files

`Grammatical` says which sequences of lines are a config file.  The constructor of
`ini_config` looks for an earlier section of the same name in the map of the values,
where a section without attributes has left no trace; what it accepts is `Accepted`.

The constructor does what the grammar says exactly if the file does not repeat a section
that was empty before, while it keeps all other rules (`ini_config_exact_iff`).
-/

namespace CoherentDB
namespace Config

open Debug Util Patterns Containers

/-- The name in a section line. -/
def Line.sect? : Line → Option Text
  | .sect name => some name
  | .blank | .attr _ _ | .invalid => none

/-- The entry of an attribute line in a section. -/
def Line.entry? (sect : Option Text) : Line → Option Entry
  | .attr name value => sect.map fun sect => ⟨sect, name, value⟩
  | .blank | .sect _ | .invalid => none

/-- The section that the lines end in, and the entries of all attribute lines in sections. -/
def scan (lines : List Line) : Option Text × List Entry :=
  lines.foldl (fun found line =>
    (line.sect?.or found.1, found.2 ++ (line.entry? found.1).toList)) (none, [])

def currentSect (lines : List Line) : Option Text := (scan lines).1

def entries (lines : List Line) : List Entry := (scan lines).2

/-- The section and the attribute of an entry. -/
def Entry.id (entry : Entry) : Text × Text := (entry.sect, entry.attr)

/-- The rules that are tested as they stand: each line has a format, attributes are in sections,
and no attribute of a section is given twice. -/
structure Regular (lines : List Line) : Prop where
  wellFormed : .invalid ∉ lines
  inSection : ∀ before line after, lines = before ++ line :: after →
    ∀ name value, line = .attr name value → ∃ sect, .sect sect ∈ before
  attributesOnce : ((entries lines).map Entry.id).Nodup

/-- A config file: no section name is used by two section lines. -/
structure Grammatical (lines : List Line) : Prop extends Regular lines where
  sectionsOnce : (lines.filterMap Line.sect?).Nodup

/-- What the constructor accepts: no section line repeats the name of a section that has
attributes already. -/
structure Accepted (lines : List Line) : Prop extends Regular lines where
  sectionsEmpty : ∀ before line after, lines = before ++ line :: after →
    ∀ sect, line = .sect sect → ∀ entry ∈ entries before, entry.sect ≠ sect

/-- The entry is that of an attribute line under a section line. -/
def Under (lines : List Line) (entry : Entry) : Prop :=
  ∃ before between after,
    lines = before ++ .sect entry.sect :: between ++ .attr entry.attr entry.val :: after ∧
      ∀ sect, .sect sect ∉ between

section Scan

variable {lines before after : List Line} {line : Line} {sect name value : Text} {entry : Entry}

@[simp] theorem currentSect_concat :
    currentSect (lines ++ [line]) = line.sect?.or (currentSect lines) := by
  rw [currentSect, scan, List.foldl_append]
  rfl

@[simp] theorem entries_concat :
    entries (lines ++ [line]) = entries lines ++ (line.entry? (currentSect lines)).toList := by
  rw [entries, scan, List.foldl_append]
  rfl

/-- Where a list with one more element can be split: there, or where the list itself can. -/
theorem split_concat {α : Type} {l before after : List α} {x y : α}
    (h : l ++ [x] = before ++ y :: after) :
    (before = l ∧ y = x ∧ after = []) ∨ ∃ rest, after = rest ++ [x] ∧ l = before ++ y :: rest := by
  rcases List.eq_nil_or_concat after with rfl | ⟨rest, z, rfl⟩
  · obtain ⟨hbefore, hlast⟩ := List.append_inj' h rfl
    exact Or.inl ⟨hbefore.symm, (List.head_eq_of_cons_eq hlast).symm, rfl⟩
  · rw [List.concat_eq_append, ← List.cons_append, ← List.append_assoc] at h
    obtain ⟨hl, hlast⟩ := List.append_inj' h rfl
    obtain rfl := List.head_eq_of_cons_eq hlast
    exact Or.inr ⟨rest, List.concat_eq_append, hl⟩

/-- What holds wherever a list can be split holds up to the last element and there. -/
theorem forall_split_concat {α : Type} {P : List α → α → Prop} {l : List α} {x : α} :
    (∀ before y after, l ++ [x] = before ++ y :: after → P before y) ↔
      (∀ before y after, l = before ++ y :: after → P before y) ∧ P l x := by
  constructor
  · intro h
    refine ⟨fun before y after hsplit => ?_, h l x [] rfl⟩
    exact h before y (after ++ [x]) (by rw [hsplit, List.append_assoc, List.cons_append])
  · rintro ⟨hbefore, hlast⟩ before y after hsplit
    obtain ⟨rfl, rfl, -⟩ | ⟨rest, -, hl⟩ := split_concat hsplit
    · exact hlast
    · exact hbefore before y rest hl

theorem exists_split_concat {α : Type} {P : List α → α → Prop} {l : List α} {x : α} :
    (∃ before y after, l ++ [x] = before ++ y :: after ∧ P before y) ↔
      (∃ before y after, l = before ++ y :: after ∧ P before y) ∨ P l x := by
  have h := forall_split_concat (P := fun before y => ¬ P before y) (l := l) (x := x)
  rw [← not_iff_not]
  push Not
  exact h

theorem Line.sect?_eq_some_iff : line.sect? = some name ↔ line = .sect name := by
  cases line <;> simp [Line.sect?]

theorem Line.sect?_eq_none_iff : line.sect? = none ↔ ∀ name, line ≠ .sect name := by
  cases line <;> simp [Line.sect?]

/-- The current section is that of the last section line. -/
theorem currentSect_eq_some_iff :
    currentSect lines = some sect ↔
      ∃ before between, lines = before ++ .sect sect :: between ∧ ∀ name, .sect name ∉ between := by
  induction lines using List.reverseRecOn with
  | nil => simp [currentSect, scan]
  | append_singleton lines line ih =>
      rw [currentSect_concat]
      cases hline : line.sect? with
      | some name =>
          obtain rfl := Line.sect?_eq_some_iff.mp hline
          constructor
          · intro h
            obtain rfl := Option.some.inj h
            exact ⟨lines, [], rfl, by simp⟩
          · rintro ⟨before, between, hsplit, hbetween⟩
            obtain ⟨-, hsect, -⟩ | ⟨rest, rfl, -⟩ := split_concat hsplit
            · rw [Line.sect.inj hsect]
              rfl
            · exact absurd (List.mem_append_right _ List.mem_cons_self) (hbetween name)
      | none =>
          have hother := Line.sect?_eq_none_iff.mp hline
          rw [Option.none_or, ih]
          constructor
          · rintro ⟨before, between, rfl, hbetween⟩
            refine ⟨before, between ++ [line], by simp, fun name hmem => ?_⟩
            rcases List.mem_append.mp hmem with hmem | hmem
            · exact hbetween name hmem
            · exact hother name (List.mem_singleton.mp hmem).symm
          · rintro ⟨before, between, hsplit, hbetween⟩
            obtain ⟨-, hsect, -⟩ | ⟨rest, rfl, hlines⟩ := split_concat hsplit
            · exact absurd hsect.symm (hother sect)
            · refine ⟨before, rest, hlines, fun name hmem => ?_⟩
              exact hbetween name (List.mem_append_left _ hmem)

theorem exists_sect_iff : (∃ sect, .sect sect ∈ lines) ↔ currentSect lines ≠ none := by
  induction lines using List.reverseRecOn with
  | nil => simp [currentSect, scan]
  | append_singleton lines line ih =>
      rw [currentSect_concat]
      cases line with
      | sect name => simp [Line.sect?]
      | blank | attr | invalid => simpa [Line.sect?] using ih

theorem Line.entry?_eq_some_iff {current : Option Text} :
    line.entry? current = some entry ↔
      line = .attr entry.attr entry.val ∧ current = some entry.sect := by
  cases line with
  | attr name value =>
      cases current with
      | none => simp [Line.entry?]
      | some sect =>
          obtain ⟨other, attr, val⟩ := entry
          simp only [Line.entry?, Option.map_some, Option.some.injEq, Entry.mk.injEq, Line.attr.injEq]
          tauto
  | blank | sect | invalid => simp [Line.entry?]

theorem under_iff : Under lines entry ↔
    ∃ before line after, lines = before ++ line :: after ∧
      line = .attr entry.attr entry.val ∧ currentSect before = some entry.sect := by
  constructor
  · rintro ⟨before, between, after, rfl, hbetween⟩
    exact ⟨_, _, after, rfl, rfl, currentSect_eq_some_iff.mpr ⟨before, between, rfl, hbetween⟩⟩
  · rintro ⟨_, _, after, rfl, rfl, hcurrent⟩
    obtain ⟨before, between, rfl, hbetween⟩ := currentSect_eq_some_iff.mp hcurrent
    exact ⟨before, between, after, rfl, hbetween⟩

/-- **The entries are those of the attribute lines under section lines.** -/
theorem mem_entries_iff : entry ∈ entries lines ↔ Under lines entry := by
  rw [under_iff]
  induction lines using List.reverseRecOn with
  | nil => simp [entries, scan]
  | append_singleton lines line ih =>
      rw [entries_concat, List.mem_append, Option.mem_toList, Line.entry?_eq_some_iff, ih]
      exact exists_split_concat.symm

end Scan

section Rules

variable {lines : List Line} {line : Line}

/-- When a line may follow the lines of an accepted file. -/
def Fits (lines : List Line) : Line → Prop
  | .blank => True
  | .attr name _ => ∃ sect, currentSect lines = some sect ∧
      ∀ entry ∈ entries lines, entry.id ≠ (sect, name)
  | .sect name => ∀ entry ∈ entries lines, entry.sect ≠ name
  | .invalid => False

theorem fits_iff : Fits lines line ↔
    line ≠ .invalid ∧ (∀ name value, line = .attr name value → ∃ sect, .sect sect ∈ lines) ∧
      (∀ new ∈ line.entry? (currentSect lines), ∀ entry ∈ entries lines, entry.id ≠ new.id) ∧
      ∀ sect, line = .sect sect → ∀ entry ∈ entries lines, entry.sect ≠ sect := by
  cases line with
  | attr name value =>
      simp only [Fits, exists_sect_iff]
      cases hcurrent : currentSect lines with
      | none => simp
      | some sect => simp [Line.entry?, Entry.id]
  | blank | sect | invalid => simp [Fits, Line.entry?]

theorem attributesOnce_concat : ((entries (lines ++ [line])).map Entry.id).Nodup ↔
    ((entries lines).map Entry.id).Nodup ∧
      ∀ new ∈ line.entry? (currentSect lines), ∀ entry ∈ entries lines, entry.id ≠ new.id := by
  rw [entries_concat]
  cases line.entry? (currentSect lines) with
  | none => simp
  | some new =>
      rw [Option.toList_some, List.map_append, List.nodup_append]
      simp

/-- **A file with one more line is accepted exactly if the line fits.** -/
theorem accepted_concat : Accepted (lines ++ [line]) ↔ Accepted lines ∧ Fits lines line := by
  rw [fits_iff]
  constructor
  · rintro ⟨⟨hformed, hsection, honce⟩, hempty⟩
    obtain ⟨hsection, hattr⟩ := forall_split_concat.mp hsection
    obtain ⟨hempty, hsect⟩ := forall_split_concat.mp hempty
    obtain ⟨honce, hnew⟩ := attributesOnce_concat.mp honce
    rw [List.mem_append, List.mem_singleton, not_or] at hformed
    exact ⟨⟨⟨hformed.1, hsection, honce⟩, hempty⟩, fun heq => hformed.2 heq.symm, hattr, hnew, hsect⟩
  · rintro ⟨⟨⟨hformed, hsection, honce⟩, hempty⟩, hline, hattr, hnew, hsect⟩
    refine ⟨⟨?_, ?_, ?_⟩, ?_⟩
    · rw [List.mem_append, List.mem_singleton, not_or]
      exact ⟨hformed, fun heq => hline heq.symm⟩
    · exact forall_split_concat.mpr ⟨hsection, hattr⟩
    · exact attributesOnce_concat.mpr ⟨honce, hnew⟩
    · exact forall_split_concat.mpr ⟨hempty, hsect⟩

theorem accepted_nil : Accepted [] := by
  refine ⟨⟨by simp, ?_, by simp [entries, scan]⟩, ?_⟩
  · intro before line after hsplit
    simp at hsplit
  · intro before line after hsplit
    simp at hsplit

end Rules

section Values

variable {values : ValueMap} {sect attr : Text} {entry : Entry}

theorem order_injective : Function.Injective order :=
  List.map_injective_iff.mpr fun _ _ h => UInt8.toNat_inj.mp h

theorem nil_le_order (s : Text) : order [] ≤ order s := by
  rcases List.lex_nil_or_eq_nil (r := (· < ·)) (order s) with hlt | heq
  · exact le_of_lt hlt
  · exact heq.ge

theorem key_eq_idOrder_iff : entry.key = idOrder sect attr ↔ entry.id = (sect, attr) := by
  rw [Entry.key, idOrder, idOrder, toLex_inj, Prod.mk.injEq, order_injective.eq_iff,
    order_injective.eq_iff, Entry.id, Prod.mk.injEq]

/-- `insert` finds the entry for the same section and attribute. -/
theorem find?_isSome_iff :
    (values.find? (idOrder sect attr)).isSome = true ↔
      ∃ entry ∈ values, entry.id = (sect, attr) := by
  rw [Option.isSome_iff_exists]
  simp only [OrderedTable.find?_eq_some_iff, key_eq_idOrder_iff]

/-- **The entry at the lower bound shows whether a section has attributes.** -/
theorem lowerBound_any_iff :
    (values.lowerBound (idOrder sect [])).any (·.sect = sect) = true ↔
      ∃ entry ∈ values, entry.sect = sect := by
  constructor
  · intro h
    obtain ⟨entry, hbound, hsect⟩ := (Option.any_eq_true _ _).mp h
    exact ⟨entry, (OrderedTable.lowerBound_spec hbound).1, of_decide_eq_true hsect⟩
  · rintro ⟨entry, hmem, rfl⟩
    have habove : idOrder entry.sect [] ≤ entry.key :=
      Prod.Lex.toLex_le_toLex.mpr (Or.inr ⟨rfl, nil_le_order entry.attr⟩)
    cases hbound : values.lowerBound (idOrder entry.sect []) with
    | none => exact absurd habove (not_le.mpr (OrderedTable.lowerBound_eq_none_iff.mp hbound _ hmem))
    | some first =>
        -- The first entry lies between two entries of the section.
        obtain ⟨-, hlow, hleast⟩ := OrderedTable.lowerBound_spec hbound
        have hhigh := hleast entry hmem habove
        have hsame : order first.sect = order entry.sect := by
          refine le_antisymm ?_ ?_
          · exact Prod.Lex.monotone_fst _ _ hhigh
          · exact Prod.Lex.monotone_fst _ _ hlow
        simp [order_injective hsame]

end Values

section Loop

/-- The rounds of the constructor's loop. -/
def parseKinds (lines : List Line) : Except ConfigFailure Parser :=
  lines.foldlM parseKind ⟨[], 0, OrderedTable.empty⟩

variable {lines : List Line} {line : Line} {p : Parser}

theorem parseKinds_concat :
    parseKinds (lines ++ [line]) = (parseKinds lines >>= fun p => parseKind p line) := by
  rw [parseKinds, List.foldlM_append]
  simp only [List.foldlM_cons, List.foldlM_nil, bind_pure]
  rfl

/-- The loop is in the section that the lines end in, and has their entries in its map. -/
structure Parser.Follows (p : Parser) (lines : List Line) : Prop where
  curSect : p.curSect = (currentSect lines).getD []
  values : ∀ entry, entry ∈ p.values ↔ entry ∈ entries lines

/-- A line that fits is taken. -/
theorem Parser.Follows.parseKind_of_fits (h : p.Follows lines) (hfits : Fits lines line)
    (hname : ∀ sect, currentSect lines = some sect → sect ≠ []) :
    ∃ p', parseKind p line = .ok p' ∧ p'.Follows (lines ++ [line]) := by
  cases line with
  | blank =>
      refine ⟨_, rfl, ?_, ?_⟩
      · simp [Line.sect?, h.curSect]
      · simp [Line.entry?, h.values]
  | attr name value =>
      obtain ⟨sect, hcurrent, hnew⟩ := hfits
      have hcur : p.curSect = sect := by rw [h.curSect, hcurrent]; rfl
      have hne : p.curSect ≠ [] := by rw [hcur]; exact hname sect hcurrent
      have hfresh : ¬ (p.values.find? (idOrder p.curSect name)).isSome = true := by
        rw [find?_isSome_iff, hcur]
        rintro ⟨entry, hmem, hid⟩
        exact hnew entry ((h.values entry).mp hmem) hid
      refine ⟨_, by rw [parseKind, if_neg hne, if_neg hfresh], ?_, ?_⟩
      · simp [Line.sect?, h.curSect]
      · intro entry
        have hfresh' : ∀ old ∈ p.values, old.key ≠ Entry.key ⟨p.curSect, name, value⟩ := by
          intro old hold hkey
          exact hfresh (find?_isSome_iff.mpr ⟨old, hold, key_eq_idOrder_iff.mp hkey⟩)
        rw [entries_concat, hcurrent, OrderedTable.mem_insert_of_fresh hfresh', h.values, hcur]
        simp [Line.entry?, or_comm]
  | sect name =>
      have hunused : ¬ (p.values.lowerBound (idOrder name [])).any (·.sect = name) = true := by
        rw [lowerBound_any_iff]
        rintro ⟨entry, hmem, hsect⟩
        exact hfits entry ((h.values entry).mp hmem) hsect
      refine ⟨_, by rw [parseKind, if_neg hunused], ?_, ?_⟩
      · simp [Line.sect?]
      · simp [Line.entry?, h.values]
  | invalid => exact hfits.elim

/-- A line that does not fit ends the loop with a `config_exception`. -/
theorem Parser.Follows.parseKind_of_not_fits (h : p.Follows lines) (hfits : ¬ Fits lines line) :
    ∃ lineNo descr, parseKind p line = .error (.exception lineNo descr) := by
  cases line with
  | blank => exact absurd trivial hfits
  | attr name value =>
      by_cases hcur : p.curSect = []
      · exact ⟨_, _, by rw [parseKind, if_pos hcur]⟩
      · cases hcurrent : currentSect lines with
        | none =>
            rw [h.curSect, hcurrent] at hcur
            exact absurd rfl hcur
        | some sect =>
            -- The section is there, so the attribute must be a duplicate.
            have hsect : p.curSect = sect := by
              rw [h.curSect, hcurrent]
              rfl
            have hfound : (p.values.find? (idOrder p.curSect name)).isSome = true := by
              rw [find?_isSome_iff, hsect]
              by_contra hnone
              push Not at hnone
              refine hfits ⟨sect, hcurrent, fun entry hmem => ?_⟩
              exact hnone entry ((h.values entry).mpr hmem)
            exact ⟨_, _, by rw [parseKind, if_neg hcur, if_pos hfound]⟩
  | sect name =>
      have hused : (p.values.lowerBound (idOrder name [])).any (·.sect = name) = true := by
        rw [lowerBound_any_iff]
        by_contra hnone
        push Not at hnone
        exact hfits fun entry hmem => hnone entry ((h.values entry).mpr hmem)
      exact ⟨_, _, by rw [parseKind, if_pos hused]⟩
  | invalid => exact ⟨_, _, rfl⟩

/-- **The loop ends well exactly on the accepted files**, with their entries in the map, and with
a `config_exception` on all others. -/
theorem parseKinds_spec (hnames : ∀ name, .sect name ∈ lines → name ≠ []) :
    (Accepted lines ∧ ∃ p, parseKinds lines = .ok p ∧ p.Follows lines) ∨
      (¬ Accepted lines ∧ ∃ lineNo descr, parseKinds lines = .error (.exception lineNo descr)) := by
  induction lines using List.reverseRecOn with
  | nil =>
      refine Or.inl ⟨accepted_nil, _, rfl, rfl, ?_⟩
      simp [entries, scan]
  | append_singleton lines line ih =>
      have hbefore : ∀ name, .sect name ∈ lines → name ≠ [] :=
        fun name hmem => hnames name (List.mem_append_left _ hmem)
      rw [accepted_concat, parseKinds_concat]
      rcases ih hbefore with ⟨haccepted, p, hparse, hfollows⟩ | ⟨hrejected, lineNo, descr, hparse⟩
      · rw [hparse, ok_bind]
        by_cases hfits : Fits lines line
        · have hcurrent : ∀ sect, currentSect lines = some sect → sect ≠ [] := by
            intro sect hsect
            obtain ⟨before, between, rfl, -⟩ := currentSect_eq_some_iff.mp hsect
            exact hbefore sect (by simp)
          exact Or.inl ⟨⟨haccepted, hfits⟩, hfollows.parseKind_of_fits hfits hcurrent⟩
        · exact Or.inr ⟨fun h => hfits h.2, hfollows.parseKind_of_not_fits hfits⟩
      · rw [hparse, error_bind]
        exact Or.inr ⟨fun h => hrejected h.1, lineNo, descr, rfl⟩

end Loop

/-- The lines of a file, each cut at its first `;`. -/
def kindsOf (text : Text) : List Line :=
  (text.splitOn '\n'.toUInt8).map fun line => classify (cut line)

section Files

variable {file : String} {text : Text}

theorem iniConfig_eq (file : String) (text : Text) :
    iniConfig file (some text) = (parseKinds (kindsOf text)).map Parser.values := by
  have hround : parseLine = fun p line => parseKind p (classify (cut line)) := by
    funext p line
    exact parseLine_eq p line
  rw [iniConfig, parseKinds, kindsOf, List.foldlM_map, hround]
  rfl

theorem sect_ne_nil_of_mem_kindsOf {name : Text} (h : .sect name ∈ kindsOf text) : name ≠ [] := by
  obtain ⟨line, -, hkind⟩ := List.mem_map.mp h
  obtain ⟨-, -, -, -, -, -, -, hname, -⟩ := classify_eq_sect_iff.mp hkind
  exact identifier_ne_nil hname

/-- What the constructor does with a file. -/
theorem iniConfig_spec (file : String) (text : Text) :
    (Accepted (kindsOf text) ∧ ∃ values, iniConfig file (some text) = .ok values ∧
        ∀ entry, entry ∈ values ↔ Under (kindsOf text) entry) ∨
      (¬ Accepted (kindsOf text) ∧
        ∃ lineNo descr, iniConfig file (some text) = .error (.exception lineNo descr)) := by
  rw [iniConfig_eq]
  rcases parseKinds_spec (fun _ => sect_ne_nil_of_mem_kindsOf) with
    ⟨haccepted, p, hparse, hfollows⟩ | ⟨hrejected, lineNo, descr, hparse⟩
  · refine Or.inl ⟨haccepted, p.values, by rw [hparse]; rfl, fun entry => ?_⟩
    rw [hfollows.values, mem_entries_iff]
  · exact Or.inr ⟨hrejected, lineNo, descr, by rw [hparse]; rfl⟩

/-- A config file without repeated sections is accepted. -/
theorem Grammatical.accepted {lines : List Line} (h : Grammatical lines) : Accepted lines := by
  refine ⟨h.toRegular, fun before line after hsplit sect hline entry hmem hsect => ?_⟩
  subst hline hsplit hsect
  -- The section line above the entry has the same name.
  obtain ⟨front, between, back, hbefore, -⟩ := mem_entries_iff.mp hmem
  have habove : entry.sect ∈ before.filterMap Line.sect? :=
    List.mem_filterMap.mpr ⟨.sect entry.sect, by simp [hbefore], rfl⟩
  have honce := h.sectionsOnce
  rw [List.filterMap_append] at honce
  exact (List.nodup_append'.mp honce).2.2 habove List.mem_cons_self

theorem grammatical_iff {lines : List Line} :
    Grammatical lines ↔ Accepted lines ∧ (lines.filterMap Line.sect?).Nodup :=
  ⟨fun h => ⟨h.accepted, h.sectionsOnce⟩, fun h => ⟨h.1.toRegular, h.2⟩⟩

end Files

/-- The constructor accepts exactly the config files and builds exactly their map; on all others
it throws a `config_exception`. -/
def ParsedExactly (file : String) (text : Text) : Prop :=
  ((∃ values, iniConfig file (some text) = .ok values) ↔ Grammatical (kindsOf text)) ∧
    (∀ values, iniConfig file (some text) = .ok values → ∀ sect attr val,
      values.find? (idOrder sect attr) = some ⟨sect, attr, val⟩ ↔
        Under (kindsOf text) ⟨sect, attr, val⟩) ∧
    (¬ Grammatical (kindsOf text) →
      ∃ lineNo descr, iniConfig file (some text) = .error (.exception lineNo descr))

/-- The file repeats a section name, but only names of sections without attributes before, and it
keeps all other rules. -/
def RepeatsEmptySection (lines : List Line) : Prop :=
  Accepted lines ∧ ¬ (lines.filterMap Line.sect?).Nodup

/-- **When `ini_config` does what its grammar says**: for every file that does not only repeat
sections that were empty before. -/
theorem ini_config_exact_iff (file : String) (text : Text) :
    ParsedExactly file text ↔ ¬ RepeatsEmptySection (kindsOf text) := by
  rw [ParsedExactly, RepeatsEmptySection, grammatical_iff]
  rcases iniConfig_spec file text with ⟨haccepted, values, hok, hvalues⟩ | ⟨hrejected, hthrown⟩
  · constructor
    · rintro ⟨hiff, -, -⟩ ⟨-, hrepeats⟩
      exact hrepeats (hiff.mp ⟨values, hok⟩).2
    · intro hrepeats
      have honce : ((kindsOf text).filterMap Line.sect?).Nodup := by
        by_contra hnot
        exact hrepeats ⟨haccepted, hnot⟩
      refine ⟨⟨fun _ => ⟨haccepted, honce⟩, fun _ => ⟨values, hok⟩⟩, ?_,
        fun hnot => absurd ⟨haccepted, honce⟩ hnot⟩
      intro other hother sect attr val
      obtain rfl := Except.ok.inj (hok.symm.trans hother)
      rw [OrderedTable.find?_eq_some_iff, hvalues]
      exact and_iff_left rfl
  · obtain ⟨lineNo, descr, herror⟩ := hthrown
    constructor
    · rintro - ⟨haccepted, -⟩
      exact hrejected haccepted
    · intro _
      refine ⟨⟨?_, fun h => absurd h.1 hrejected⟩, ?_, fun _ => ⟨lineNo, descr, herror⟩⟩
      · rintro ⟨values, hok⟩
        rw [herror] at hok
        cases hok
      · intro values hok
        rw [herror] at hok
        cases hok

/-- The file with the two lines `[a]`. -/
def repeatedSection : Text := chars "[a]\n[a]\n"

/-- The second section `[a]` is accepted, since the first one has left nothing in the map. -/
theorem empty_section_repeated :
    (∃ values, iniConfig "conf" (some repeatedSection) = .ok values) ∧
      ¬ Grammatical (kindsOf repeatedSection) ∧ ¬ ParsedExactly "conf" repeatedSection := by
  have hkinds : kindsOf repeatedSection = [.sect [97], .sect [97], .blank] := by decide
  have hok : (iniConfig "conf" (some repeatedSection)).isOk = true := by decide
  have hnot : ¬ Grammatical (kindsOf repeatedSection) := by
    intro h
    have honce := h.sectionsOnce
    rw [hkinds] at honce
    exact absurd honce (by decide)
  cases hparsed : iniConfig "conf" (some repeatedSection) with
  | error failure =>
      rw [hparsed] at hok
      cases hok
  | ok values =>
      refine ⟨⟨values, rfl⟩, hnot, fun hexact => hnot ?_⟩
      exact hexact.1.mp ⟨values, hparsed⟩

end Config
end CoherentDB
