import Mathlib.Data.List.TakeWhile
import CoherentDB.Config.Grammar

/-!
# Blanks in config files

The patterns of `ini_config` allow blanks around the names, the brackets and the `=`.
`get_attr` and `get_sect_name` leave them out of what they return; `get_val` returns all
of the text behind the `=`, and so the blanks in front of the value too.

`SpacedFile` says when a file is another one with blanks inserted.  It is accepted with
the other one, and gives the same map exactly if no blanks were inserted between a `=`
and its value (`spaced_file_same_map_iff`).
-/

namespace CoherentDB
namespace Config

open Debug Util Patterns Containers

/-- Blanks with more blanks among them. -/
def Widened (s s' : Text) : Prop := s.Sublist s' ∧ Matches blanks s'

/-- A line without a comment, with blanks inserted where the patterns allow them. -/
inductive Spaced : Text → Text → Prop
  | same (body : Text) : Spaced body body
  | attr (before before' name after after' gap gap' value : Text) (hbefore : Widened before before')
      (hname : Matches identifier name) (hafter : Widened after after') (hgap : Widened gap gap')
      (hvalue : Matches valueChars value) :
      Spaced (before ++ name ++ after ++ '='.toUInt8 :: (gap ++ value))
        (before' ++ name ++ after' ++ '='.toUInt8 :: (gap' ++ value))
  | sect (front front' before before' name after after' back back' : Text)
      (hfront : Widened front front') (hbefore : Widened before before')
      (hname : Matches identifier name) (hafter : Widened after after') (hback : Widened back back') :
      Spaced (front ++ '['.toUInt8 :: (before ++ name ++ after ++ ']'.toUInt8 :: back))
        (front' ++ '['.toUInt8 :: (before' ++ name ++ after' ++ ']'.toUInt8 :: back'))

/-- The same for a line with its comment, which stays as it is. -/
def SpacedLine (line line' : Text) : Prop :=
  ∃ body, Spaced (cut line) body ∧ line' = body ++ line.dropWhile (· != ';'.toUInt8)

/-- The lines of a file. -/
def linesOf (text : Text) : List Text := text.splitOn '\n'.toUInt8

/-- The second file is the first one with blanks inserted where the patterns allow them. -/
def SpacedFile (text text' : Text) : Prop := List.Forall₂ SpacedLine (linesOf text) (linesOf text')

/-- The blanks between the `=` of a line and its value. -/
def valueGap (line : Text) : Text :=
  (line.dropWhile (· != '='.toUInt8)).tail.takeWhile isBlank

/-- No blanks were inserted between a `=` and its value. -/
def SameGaps (text text' : Text) : Prop :=
  List.Forall₂ (fun line line' => valueGap (cut line') = valueGap (cut line)) (linesOf text)
    (linesOf text')

/-- A line without the value of its attribute. -/
def Line.forget : Line → Line
  | .attr name _ => .attr name []
  | .blank => .blank
  | .sect name => .sect name
  | .invalid => .invalid

section Lines

variable {s s' body body' line line' name value : Text}

theorem Widened.blanks (h : Widened s s') : Matches blanks s :=
  matches_blanks.mpr fun c hc => matches_blanks.mp h.2 c (h.1.subset hc)

theorem Widened.notMem (h : Widened s s') {k : Byte} (hk : isBlank k = false) : k ∉ s' :=
  notMem_blanks h.2 hk

theorem takeWhile_isBlank_append (hblank : Matches blanks s) (hvalue : Matches valueChars value) :
    (s ++ value).takeWhile isBlank = s := by
  obtain ⟨c, rest, rfl, hc, -⟩ := hvalue
  have hfirst : isBlank c = false := by
    simp only [isFirstValueChar, Bool.and_eq_true, Bool.not_eq_true'] at hc
    exact hc.1.1
  rw [List.takeWhile_append_of_pos (matches_blanks.mp hblank), List.takeWhile_cons_of_neg,
    List.append_nil]
  rw [hfirst]
  decide

theorem isAttr_mk {before after gap : Text} (hbefore : Matches blanks before)
    (hname : Matches identifier name) (hafter : Matches blanks after) (hgap : Matches blanks gap)
    (hvalue : Matches valueChars value) :
    IsAttr (before ++ name ++ after ++ '='.toUInt8 :: (gap ++ value)) name (gap ++ value) :=
  ⟨before, after, rfl, hbefore, hname, hafter, matches_append.mpr ⟨gap, value, rfl, hgap, hvalue⟩⟩

/-- The blanks in front of the value of an attribute line. -/
theorem IsAttr.valueGap_eq (h : IsAttr line name value) : valueGap line = value.takeWhile isBlank := by
  obtain ⟨before, after, rfl, hbefore, hname, hafter, -⟩ := h
  rw [valueGap, dropWhile_ne_tail (equal_notMem hbefore hname hafter)]

/-- A section line has no `=`, and so no gap. -/
theorem IsSect.valueGap_eq (h : IsSect line name) : valueGap line = [] := by
  obtain ⟨front, before, after, back, rfl, hfront, hbefore, hname, hafter, hback⟩ := h
  have hnot : '='.toUInt8 ∉ front ++ '['.toUInt8 ::
      (before ++ name ++ after ++ ']'.toUInt8 :: back) := by
    simp only [List.mem_append, List.mem_cons, not_or]
    exact ⟨notMem_blanks hfront (by decide), by decide, ⟨⟨notMem_blanks hbefore (by decide),
      notMem_identifier hname (by decide)⟩, notMem_blanks hafter (by decide)⟩, by decide,
      notMem_blanks hback (by decide)⟩
  have hdrop : (front ++ '['.toUInt8 :: (before ++ name ++ after ++ ']'.toUInt8 :: back)).dropWhile
      (· != '='.toUInt8) = [] := by
    rw [List.dropWhile_eq_nil_iff]
    intro c hc
    rw [bne_iff_ne]
    rintro rfl
    exact hnot hc
  rw [valueGap, hdrop]
  rfl

/-- **What blanks do to a line**: it stays of the same kind with the same name, and is the same line
for the constructor exactly if the blanks in front of its value are. -/
theorem Spaced.classify_eq (h : Spaced body body') :
    (classify body').forget = (classify body).forget ∧
      (classify body' = classify body ↔ valueGap body' = valueGap body) := by
  cases h with
  | same => simp
  | attr before before' name after after' gap gap' value hbefore hname hafter hgap hvalue =>
      have hattr := isAttr_mk hbefore.blanks hname hafter.blanks hgap.blanks hvalue
      have hattr' := isAttr_mk hbefore.2 hname hafter.2 hgap.2 hvalue
      rw [hattr.classify_eq, hattr'.classify_eq, hattr.valueGap_eq, hattr'.valueGap_eq,
        takeWhile_isBlank_append hgap.blanks hvalue, takeWhile_isBlank_append hgap.2 hvalue]
      refine ⟨rfl, ?_⟩
      rw [Line.attr.injEq, List.append_left_inj]
      exact and_iff_right rfl
  | sect front front' before before' name after after' back back' hfront hbefore hname hafter hback =>
      have hsect : IsSect _ _ := ⟨_, _, _, _, rfl, hfront.blanks, hbefore.blanks, hname, hafter.blanks,
        hback.blanks⟩
      have hsect' : IsSect _ _ := ⟨_, _, _, _, rfl, hfront.2, hbefore.2, hname, hafter.2, hback.2⟩
      rw [hsect.classify_eq, hsect'.classify_eq, hsect.valueGap_eq, hsect'.valueGap_eq]
      simp

/-- Inserted blanks start no comment. -/
theorem Spaced.notMem_semicolon (h : Spaced body body') (hbody : ';'.toUInt8 ∉ body) :
    ';'.toUInt8 ∉ body' := by
  cases h with
  | same => exact hbody
  | attr before before' name after after' gap gap' value hbefore hname hafter hgap hvalue =>
      simp only [List.mem_append, List.mem_cons, not_or] at hbody ⊢
      exact ⟨⟨⟨hbefore.notMem (by decide), hbody.1.1.2⟩, hafter.notMem (by decide)⟩, hbody.2.1,
        hgap.notMem (by decide), hbody.2.2.2⟩
  | sect front front' before before' name after after' back back' hfront hbefore hname hafter hback =>
      simp only [List.mem_append, List.mem_cons, not_or] at hbody ⊢
      exact ⟨hfront.notMem (by decide), hbody.2.1, ⟨⟨hbefore.notMem (by decide),
        hbody.2.2.1.1.2⟩, hafter.notMem (by decide)⟩, hbody.2.2.2.1, hback.notMem (by decide)⟩

theorem semicolon_notMem_cut (line : Text) : ';'.toUInt8 ∉ cut line := by
  intro hmem
  have hne := List.mem_takeWhile_imp hmem
  simp at hne

/-- The line with blanks is cut where the line itself is. -/
theorem SpacedLine.spaced (h : SpacedLine line line') : Spaced (cut line) (cut line') := by
  obtain ⟨body, hspaced, rfl⟩ := h
  have hbody := hspaced.notMem_semicolon (semicolon_notMem_cut line)
  have hcut : cut (body ++ line.dropWhile (· != ';'.toUInt8)) = body := by
    rw [cut, List.takeWhile_append_of_pos, List.takeWhile_eq_nil_iff.mpr, List.append_nil]
    · intro hlength
      exact List.dropWhile_get_zero_not _ _ hlength
    · intro c hc
      rw [bne_iff_ne]
      rintro rfl
      exact hbody hc
  rw [hcut]
  exact hspaced

end Lines

section Files

variable {lines lines' : List Line} {line : Line}

@[simp] theorem Line.sect?_forget : line.forget.sect? = line.sect? := by
  cases line <;> rfl

theorem Line.map_id_entry?_forget (current : Option Text) :
    (line.forget.entry? current).map Entry.id = (line.entry? current).map Entry.id := by
  cases line with
  | attr name value => cases current <;> rfl
  | blank | sect | invalid => rfl

@[simp] theorem currentSect_forget (lines : List Line) :
    currentSect (lines.map Line.forget) = currentSect lines := by
  induction lines using List.reverseRecOn with
  | nil => rfl
  | append_singleton lines line ih =>
      rw [List.map_append, List.map_singleton, currentSect_concat, currentSect_concat, ih,
        Line.sect?_forget]

theorem entries_forget (lines : List Line) :
    (entries (lines.map Line.forget)).map Entry.id = (entries lines).map Entry.id := by
  induction lines using List.reverseRecOn with
  | nil => rfl
  | append_singleton lines line ih =>
      rw [List.map_append, List.map_singleton, entries_concat, entries_concat, List.map_append,
        List.map_append, ih, currentSect_forget, ← Option.toList_map, ← Option.toList_map,
        Line.map_id_entry?_forget]

theorem fits_forget : Fits (lines.map Line.forget) line.forget ↔ Fits lines line := by
  have hids : ∀ P : Text × Text → Prop, (∀ entry ∈ entries (lines.map Line.forget), P entry.id) ↔
      ∀ entry ∈ entries lines, P entry.id := by
    intro P
    rw [← List.forall_mem_map (f := Entry.id), entries_forget, List.forall_mem_map]
  cases line with
  | blank | invalid => exact Iff.rfl
  | attr name value =>
      simp only [Fits, Line.forget, currentSect_forget]
      exact exists_congr fun sect => and_congr_right fun _ => hids fun id => id ≠ (sect, name)
  | sect name => exact hids fun id => id.1 ≠ name

/-- **Whether a file is accepted does not depend on the values.** -/
theorem accepted_forget : Accepted (lines.map Line.forget) ↔ Accepted lines := by
  induction lines using List.reverseRecOn with
  | nil => exact Iff.rfl
  | append_singleton lines line ih =>
      rw [List.map_append, List.map_singleton, accepted_concat, accepted_concat, ih, fits_forget]

/-- Lists of entries with the same identifiers, none of them twice, are the same if they have the
same entries. -/
theorem eq_of_map_id_eq {found found' : List Entry} (hids : found'.map Entry.id = found.map Entry.id)
    (honce : (found.map Entry.id).Nodup) (hsame : ∀ entry ∈ found', entry ∈ found) :
    found' = found := by
  have hlength : found'.length = found.length := by
    rw [← List.length_map Entry.id, hids, List.length_map]
  refine List.ext_getElem hlength fun i hi hi' => ?_
  refine List.inj_on_of_nodup_map honce (hsame _ (List.getElem_mem hi)) (List.getElem_mem hi') ?_
  have hget := List.getElem_of_eq hids (i := i) (by simpa using hi)
  simpa using hget

/-- A line that fits is given by its kind and its entry. -/
theorem eq_of_entry?_eq {line' : Line} (hfits : Fits lines line) (hforget : line'.forget = line.forget)
    (hentry : line'.entry? (currentSect lines) = line.entry? (currentSect lines)) :
    line' = line := by
  cases line with
  | attr name value =>
      obtain ⟨sect, hcurrent, -⟩ := hfits
      cases line' with
      | attr name' value' =>
          rw [hcurrent] at hentry
          simp only [Line.entry?, Option.map_some, Option.some.injEq, Entry.mk.injEq] at hentry
          rw [hentry.2.1, hentry.2.2]
      | blank | sect | invalid => cases hforget
  | blank | sect name | invalid => cases line' <;> simp_all [Line.forget]

/-- **Files that differ in a value have different entries.** -/
theorem eq_of_entries_eq (haccepted : Accepted lines)
    (hforget : lines'.map Line.forget = lines.map Line.forget)
    (hentries : entries lines' = entries lines) : lines' = lines := by
  induction lines using List.reverseRecOn generalizing lines' with
  | nil => simpa using hforget
  | append_singleton lines line ih =>
      rcases List.eq_nil_or_concat lines' with rfl | ⟨before, line', rfl⟩
      · simp at hforget
      · rw [List.concat_eq_append] at hforget hentries ⊢
        obtain ⟨hbefore, hfits⟩ := accepted_concat.mp haccepted
        rw [List.map_append, List.map_append] at hforget
        obtain ⟨hforget, hlast⟩ := List.append_inj' hforget rfl
        have hlast : line'.forget = line.forget := List.head_eq_of_cons_eq hlast
        have hcurrent : currentSect before = currentSect lines := by
          rw [← currentSect_forget before, hforget, currentSect_forget]
        rw [entries_concat, entries_concat, hcurrent] at hentries
        -- The two lines have an entry both or neither.
        have hlength : (line'.entry? (currentSect lines)).toList.length =
            (line.entry? (currentSect lines)).toList.length := by
          rw [← List.length_map Entry.id, ← Option.toList_map, ← Line.map_id_entry?_forget, hlast,
            Line.map_id_entry?_forget, Option.toList_map, List.length_map]
        obtain ⟨hentries, hentry⟩ := List.append_inj' hentries hlength
        obtain rfl := ih hbefore hforget hentries
        have hentry : line'.entry? (currentSect before) = line.entry? (currentSect before) := by
          have hhead := congrArg List.head? hentry
          rwa [Option.head?_toList, Option.head?_toList] at hhead
        rw [eq_of_entry?_eq hfits hlast hentry]

end Files

section Spacing

variable {file : String} {text text' : Text}

theorem kindsOf_eq (text : Text) :
    kindsOf text = (linesOf text).map fun line => classify (cut line) := rfl

/-- Blanks change nothing in a file but values. -/
theorem SpacedFile.forget_kindsOf (h : SpacedFile text text') :
    (kindsOf text').map Line.forget = (kindsOf text).map Line.forget := by
  rw [kindsOf_eq, kindsOf_eq, List.map_map, List.map_map]
  rw [SpacedFile] at h
  generalize linesOf text = lines at h ⊢
  generalize linesOf text' = lines' at h ⊢
  induction h with
  | nil => rfl
  | cons hline _ ih =>
      rw [List.map_cons, List.map_cons, ih]
      exact congrArg (· :: _) hline.spaced.classify_eq.1

/-- The lines are the same for the constructor exactly if the blanks in front of the values are. -/
theorem SpacedFile.kindsOf_eq_iff (h : SpacedFile text text') :
    kindsOf text' = kindsOf text ↔ SameGaps text text' := by
  rw [kindsOf_eq, kindsOf_eq, SameGaps]
  rw [SpacedFile] at h
  generalize linesOf text = lines at h ⊢
  generalize linesOf text' = lines' at h ⊢
  induction h with
  | nil => simp
  | cons hline _ ih =>
      rw [List.map_cons, List.map_cons, List.cons.injEq, List.forall₂_cons, ih,
        hline.spaced.classify_eq.2]

theorem SpacedFile.accepted (h : SpacedFile text text') (haccepted : Accepted (kindsOf text)) :
    Accepted (kindsOf text') := by
  rw [← accepted_forget, h.forget_kindsOf, accepted_forget]
  exact haccepted

/-- What the constructor has accepted, with the entries of its map. -/
theorem entries_of_ok {values : ValueMap} (hok : iniConfig file (some text) = .ok values) :
    Accepted (kindsOf text) ∧ ∀ entry, entry ∈ values ↔ entry ∈ entries (kindsOf text) := by
  rcases iniConfig_spec file text with ⟨haccepted, other, hother, hvalues⟩ | ⟨-, _, _, herror⟩
  · obtain rfl := Except.ok.inj (hother.symm.trans hok)
    exact ⟨haccepted, fun entry => (hvalues entry).trans mem_entries_iff.symm⟩
  · rw [herror] at hok
    cases hok

end Spacing

/-- **When blanks do not matter.**  A file with blanks inserted where the patterns allow them is
accepted if the file itself is, and it gives the same map exactly if none were inserted between a
`=` and its value. -/
theorem spaced_file_same_map_iff (file : String) {text text' : Text} {values : ValueMap}
    (hok : iniConfig file (some text) = .ok values) (hspaced : SpacedFile text text') :
    (∃ values', iniConfig file (some text') = .ok values') ∧
      (iniConfig file (some text') = .ok values ↔ SameGaps text text') := by
  obtain ⟨haccepted, hentries⟩ := entries_of_ok hok
  refine ⟨?_, ?_⟩
  · rcases iniConfig_spec file text' with ⟨-, values', hok', -⟩ | ⟨hrejected, -⟩
    · exact ⟨values', hok'⟩
    · exact absurd (hspaced.accepted haccepted) hrejected
  · rw [← hspaced.kindsOf_eq_iff]
    constructor
    · intro hok'
      obtain ⟨-, hentries'⟩ := entries_of_ok hok'
      have hids : (entries (kindsOf text')).map Entry.id = (entries (kindsOf text)).map Entry.id := by
        rw [← entries_forget, hspaced.forget_kindsOf, entries_forget]
      refine eq_of_entries_eq haccepted hspaced.forget_kindsOf ?_
      refine eq_of_map_id_eq hids haccepted.attributesOnce fun entry hmem => ?_
      exact (hentries entry).mp ((hentries' entry).mpr hmem)
    · intro hkinds
      rw [iniConfig_eq, hkinds, ← iniConfig_eq]
      exact hok

/-- A section with one attribute, without blanks. -/
def plainFile : Text := chars "[a]\nx=1"

/-- Blanks around the brackets and the names. -/
theorem spaced_file_same_map_iff_names :
    ∃ values, iniConfig "conf" (some plainFile) = .ok values ∧
      iniConfig "conf" (some (chars " [\ta ]\n\tx =1")) = .ok values := by
  have hspaced : SpacedFile plainFile (chars " [\ta ]\n\tx =1") := by
    refine .cons ⟨chars " [\ta ]", ?_, rfl⟩ (.cons ⟨chars "\tx =1", ?_, rfl⟩ .nil)
    · exact Spaced.sect [] (chars " ") [] (chars "\t") (chars "a") [] (chars " ") [] []
        ⟨by decide, accepts_iff.mp rfl⟩ ⟨by decide, accepts_iff.mp rfl⟩ (accepts_iff.mp rfl)
        ⟨by decide, accepts_iff.mp rfl⟩ ⟨by decide, accepts_iff.mp rfl⟩
    · exact Spaced.attr [] (chars "\t") (chars "x") [] (chars " ") [] [] (chars "1")
        ⟨by decide, accepts_iff.mp rfl⟩ (accepts_iff.mp rfl) ⟨by decide, accepts_iff.mp rfl⟩
        ⟨by decide, accepts_iff.mp rfl⟩ (accepts_iff.mp rfl)
  have hok : (iniConfig "conf" (some plainFile)).isOk = true := by decide
  cases hparsed : iniConfig "conf" (some plainFile) with
  | error failure =>
      rw [hparsed] at hok
      cases hok
  | ok values =>
      refine ⟨values, rfl, (spaced_file_same_map_iff "conf" hparsed hspaced).2.mpr ?_⟩
      exact .cons (by decide) (.cons (by decide) .nil)

/-- With a blank in front of the value the map has another value, ` 1` instead of `1`. -/
theorem blank_before_value_changes_map :
    SpacedFile plainFile (chars "[a]\nx= 1") ∧
      ((iniConfig "conf" (some plainFile)).toOption.bind fun values =>
          values.find? (idOrder (chars "a") (chars "x"))) =
        some ⟨chars "a", chars "x", chars "1"⟩ ∧
      ((iniConfig "conf" (some (chars "[a]\nx= 1"))).toOption.bind fun values =>
          values.find? (idOrder (chars "a") (chars "x"))) =
        some ⟨chars "a", chars "x", chars " 1"⟩ ∧
      iniConfig "conf" (some (chars "[a]\nx= 1")) ≠ iniConfig "conf" (some plainFile) := by
  have hplain : ((iniConfig "conf" (some plainFile)).toOption.bind fun values =>
      values.find? (idOrder (chars "a") (chars "x"))) =
        some ⟨chars "a", chars "x", chars "1"⟩ := by decide
  have hblank : ((iniConfig "conf" (some (chars "[a]\nx= 1"))).toOption.bind fun values =>
      values.find? (idOrder (chars "a") (chars "x"))) =
        some ⟨chars "a", chars "x", chars " 1"⟩ := by decide
  refine ⟨?_, hplain, hblank, fun hsame => ?_⟩
  · refine .cons ⟨chars "[a]", .same _, rfl⟩ (.cons ⟨chars "x= 1", ?_, rfl⟩ .nil)
    exact Spaced.attr [] [] (chars "x") [] [] [] (chars " ") (chars "1")
      ⟨by decide, accepts_iff.mp rfl⟩ (accepts_iff.mp rfl) ⟨by decide, accepts_iff.mp rfl⟩
      ⟨by decide, accepts_iff.mp rfl⟩ (accepts_iff.mp rfl)
  · rw [hsame, hplain] at hblank
    exact absurd hblank (by decide)

end Config
end CoherentDB
