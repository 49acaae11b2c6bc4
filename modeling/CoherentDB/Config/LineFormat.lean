import CoherentDB.Config.IniConfig

/-!
# The lines of a config file

`IsAttr` and `IsSect` say what an attribute line and a section line are made of.  A line
matches `reg_attr` or `reg_sect` exactly if it is one of them, and `get_attr`, `get_val`
and `get_sect_name` then return its parts.  So a round of the constructor's loop only
depends on the kind of its line, which `classify` computes (`parseLine_eq`).
-/

namespace CoherentDB
namespace Config

open Debug Util Patterns Containers

/-- An attribute line with the name and the text behind its `=`. -/
def IsAttr (line name value : Text) : Prop :=
  ∃ before after, line = before ++ name ++ after ++ '='.toUInt8 :: value ∧
    Matches blanks before ∧ Matches identifier name ∧ Matches blanks after ∧
    Matches (blanks ++ valueChars) value

/-- A section line with the name between its brackets. -/
def IsSect (line name : Text) : Prop :=
  ∃ front before after back, line =
      front ++ '['.toUInt8 :: (before ++ name ++ after ++ ']'.toUInt8 :: back) ∧
    Matches blanks front ∧ Matches blanks before ∧ Matches identifier name ∧
    Matches blanks after ∧ Matches blanks back

section Characters

variable {c k : Byte} {s : Text} {p : Byte → Bool}

theorem notMem_of_class (h : ∀ c ∈ s, p c = true) (hk : p k = false) : k ∉ s := by
  intro hmem
  rw [h k hmem] at hk
  cases hk

theorem isSpace_of_isBlank (h : isBlank c = true) : isSpace c = true := by
  simp only [isBlank, Bool.or_eq_true, beq_iff_eq] at h
  rcases h with rfl | rfl <;> decide

theorem isWordChar_of_isLetter (h : isLetter c = true) : isWordChar c = true := by
  simp [isWordChar, h]

theorem not_isSpace_of_isWordChar (h : isWordChar c = true) : isSpace c = false := by
  rw [Bool.eq_false_iff]
  intro hspace
  simp only [isWordChar, isLetter, isSpace, Bool.or_eq_true, Bool.and_eq_true, beq_iff_eq,
    decide_eq_true_eq] at h hspace
  rcases hspace with rfl | ⟨hlow, hhigh⟩
  · revert h
    decide
  · rcases h with (((⟨h, -⟩ | ⟨h, -⟩) | ⟨h, -⟩) | rfl)
    · exact absurd (UInt8.le_trans h hhigh) (by decide)
    · exact absurd (UInt8.le_trans h hhigh) (by decide)
    · exact absurd (UInt8.le_trans h hhigh) (by decide)
    · exact absurd hhigh (by decide)

theorem not_isBlank_of_isWordChar (h : isWordChar c = true) : isBlank c = false := by
  rw [Bool.eq_false_iff]
  intro hblank
  have hspace := isSpace_of_isBlank hblank
  rw [not_isSpace_of_isWordChar h] at hspace
  cases hspace

theorem matches_blanks : Matches blanks s ↔ ∀ c ∈ s, isBlank c = true := matches_star

theorem matches_just {char : Char} : Matches (just char) s ↔ s = [char.toUInt8] := by
  rw [just, matches_one]
  constructor
  · rintro ⟨c, rfl, hc⟩
    rw [beq_iff_eq.mp hc]
  · rintro rfl
    exact ⟨_, rfl, beq_self_eq_true _⟩

/-- An identifier is a letter and word characters. -/
theorem matches_identifier :
    Matches identifier s ↔ ∃ c rest, s = c :: rest ∧ isLetter c = true ∧
      ∀ d ∈ rest, isWordChar d = true := by
  have hsplit : identifier = [.one isLetter] ++ [.star isWordChar] := rfl
  rw [hsplit, matches_append]
  constructor
  · rintro ⟨a, b, rfl, ha, hb⟩
    obtain ⟨c, rfl, hc⟩ := matches_one.mp ha
    exact ⟨c, b, rfl, hc, matches_star.mp hb⟩
  · rintro ⟨c, rest, rfl, hc, hrest⟩
    exact ⟨[c], rest, rfl, matches_one.mpr ⟨c, rfl, hc⟩, matches_star.mpr hrest⟩

theorem wordChars_of_identifier (h : Matches identifier s) : ∀ c ∈ s, isWordChar c = true := by
  obtain ⟨c, rest, rfl, hc, hrest⟩ := matches_identifier.mp h
  exact List.forall_mem_cons.mpr ⟨isWordChar_of_isLetter hc, hrest⟩

/-- Blanks and identifiers do not contain the characters that separate them. -/
theorem notMem_blanks (h : Matches blanks s) (hk : isBlank k = false) : k ∉ s :=
  notMem_of_class (matches_blanks.mp h) hk

theorem notMem_identifier (h : Matches identifier s) (hk : isWordChar k = false) : k ∉ s :=
  notMem_of_class (wordChars_of_identifier h) hk

end Characters

section Words

variable {before name after rest : Text}

/-- A word between characters to skip and the rest that does not belong to it. -/
theorem word_between {skip keep : Byte → Bool} (hbefore : ∀ c ∈ before, skip c = true)
    (hskip : ∀ c ∈ name, skip c = false) (hkeep : ∀ c ∈ name, keep c = true) (hname : name ≠ [])
    (hrest : rest.takeWhile keep = []) :
    ((before ++ (name ++ rest)).dropWhile skip).takeWhile keep = name := by
  rw [List.dropWhile_append_of_pos hbefore]
  cases name with
  | nil => exact absurd rfl hname
  | cons c name =>
      rw [List.cons_append, List.dropWhile_cons_of_neg (by simp [hskip c List.mem_cons_self]),
        ← List.cons_append, List.takeWhile_append_of_pos hkeep, hrest, List.append_nil]

theorem identifier_ne_nil (h : Matches identifier name) : name ≠ [] := by
  obtain ⟨c, rest, rfl, -, -⟩ := matches_identifier.mp h
  exact List.cons_ne_nil c rest

/-- The word characters from the first that is not blank. -/
def identifierOf (s : Text) : Text := (s.dropWhile isBlank).takeWhile isWordChar

theorem takeWhile_blanks_append {k : Byte} (hafter : Matches blanks after)
    (hk : isWordChar k = false) : (after ++ k :: rest).takeWhile isWordChar = [] := by
  cases after with
  | nil => simp [hk]
  | cons c after =>
      have hc : isBlank c = true := matches_blanks.mp hafter c List.mem_cons_self
      rw [List.cons_append, List.takeWhile_cons_of_neg]
      intro hword
      rw [not_isBlank_of_isWordChar hword] at hc
      cases hc

theorem identifierOf_eq {k : Byte} (hbefore : Matches blanks before)
    (hname : Matches identifier name) (hafter : Matches blanks after)
    (hk : isWordChar k = false) : identifierOf (before ++ name ++ after ++ k :: rest) = name := by
  have hwords := wordChars_of_identifier hname
  rw [List.append_assoc, List.append_assoc]
  exact word_between (matches_blanks.mp hbefore)
    (fun c hc => not_isBlank_of_isWordChar (hwords c hc)) hwords (identifier_ne_nil hname)
    (takeWhile_blanks_append hafter hk)

theorem firstWord_eq (hbefore : Matches blanks before) (hname : Matches identifier name)
    (hafter : Matches blanks after) : firstWord (before ++ name ++ after) = name := by
  have hspaces : ∀ c ∈ name, isSpace c = false :=
    fun c hc => not_isSpace_of_isWordChar (wordChars_of_identifier hname c hc)
  rw [List.append_assoc]
  refine word_between (fun c hc => isSpace_of_isBlank (matches_blanks.mp hbefore c hc)) hspaces
    (fun c hc => by simp [hspaces c hc]) (identifier_ne_nil hname) ?_
  cases after with
  | nil => rfl
  | cons c after =>
      have hc := isSpace_of_isBlank (matches_blanks.mp hafter c List.mem_cons_self)
      simp [hc]

theorem find_eq {char : Char} (h : char.toUInt8 ∉ before) :
    find (before ++ char.toUInt8 :: rest) char = some before.length := by
  have hnone : before.findIdx? (· == char.toUInt8) = none := by
    rw [List.findIdx?_eq_none_iff]
    intro c hc
    rw [beq_eq_false_iff_ne]
    rintro rfl
    exact h hc
  rw [find, List.findIdx?_append, hnone, List.findIdx?_cons]
  simp

theorem dropWhile_ne_tail {k : Byte} (h : k ∉ before) :
    ((before ++ k :: rest).dropWhile (· != k)).tail = rest := by
  have hbefore : ∀ c ∈ before, (c != k) = true := by
    intro c hc
    rw [bne_iff_ne]
    rintro rfl
    exact h hc
  rw [List.dropWhile_append_of_pos hbefore, List.dropWhile_cons_of_neg (by simp)]
  rfl

end Words

section Attributes

variable {line name value : Text}

/-- **A line matches `reg_attr` exactly if it is an attribute line.** -/
theorem matches_regAttr_iff : Matches regAttr line ↔ ∃ name value, IsAttr line name value := by
  have hsplit : regAttr = blanks ++ (identifier ++ (blanks ++ (just '=' ++
    (blanks ++ valueChars)))) := by simp [regAttr]
  rw [hsplit]
  constructor
  · intro h
    obtain ⟨before, _, rfl, hbefore, h⟩ := matches_append.mp h
    obtain ⟨name, _, rfl, hname, h⟩ := matches_append.mp h
    obtain ⟨after, _, rfl, hafter, h⟩ := matches_append.mp h
    obtain ⟨_, value, rfl, hequal, hvalue⟩ := matches_append.mp h
    obtain rfl := matches_just.mp hequal
    exact ⟨name, value, before, after, by simp, hbefore, hname, hafter, hvalue⟩
  · rintro ⟨name, value, before, after, rfl, hbefore, hname, hafter, hvalue⟩
    simp only [List.append_assoc]
    refine matches_append.mpr ⟨before, _, rfl, hbefore, ?_⟩
    refine matches_append.mpr ⟨name, _, rfl, hname, ?_⟩
    refine matches_append.mpr ⟨after, _, rfl, hafter, ?_⟩
    exact matches_append.mpr ⟨[_], value, rfl, matches_just.mpr rfl, hvalue⟩

/-- The value has a character that is not blank. -/
theorem lineIsWhite_value (h : Matches (blanks ++ valueChars) value) :
    lineIsWhite value = false := by
  obtain ⟨before, _, rfl, -, hchars⟩ := matches_append.mp h
  obtain ⟨c, rest, rfl, hc, -⟩ := hchars
  simp only [isFirstValueChar, Bool.and_eq_true, Bool.not_eq_true'] at hc
  simp [lineIsWhite, hc.1.1]

/-- No `=` comes before the one that ends the name. -/
theorem equal_notMem {before after : Text} (hbefore : Matches blanks before)
    (hname : Matches identifier name) (hafter : Matches blanks after) :
    '='.toUInt8 ∉ before ++ name ++ after := by
  simp only [List.mem_append, not_or]
  exact ⟨⟨notMem_blanks hbefore (by decide), notMem_identifier hname (by decide)⟩,
    notMem_blanks hafter (by decide)⟩

/-- **`get_attr` returns the name of an attribute line.** -/
theorem IsAttr.getAttr_eq (h : IsAttr line name value) : getAttr line = .ok name := by
  obtain ⟨before, after, rfl, hbefore, hname, hafter, -⟩ := h
  rw [getAttr, find_eq (equal_notMem hbefore hname hafter)]
  simp only [List.take_left]
  rw [firstWord_eq hbefore hname hafter]

/-- **`get_val` returns the text behind the `=`.** -/
theorem IsAttr.getVal_eq (h : IsAttr line name value) : getVal line = .ok value := by
  obtain ⟨before, after, rfl, hbefore, hname, hafter, hvalue⟩ := h
  have hwhite := lineIsWhite_value hvalue
  have hlength : 0 < value.length := by
    rw [List.length_pos_iff]
    rintro rfl
    cases hwhite
  have hdrop : (before ++ name ++ after ++ '='.toUInt8 :: value).drop
      ((before ++ name ++ after).length + 1) = value := by
    rw [← List.drop_drop, List.drop_left]
    rfl
  rw [getVal, find_eq (equal_notMem hbefore hname hafter)]
  simp only [hdrop]
  have hroom : (before ++ name ++ after).length + 1 <
      (before ++ name ++ after ++ '='.toUInt8 :: value).length := by
    simp only [List.length_append, List.length_cons]
    omega
  rw [dAssertElse_of hroom, ok_bind, dAssertElse_of hwhite, ok_bind]
  rfl

/-- An attribute line has no `[`. -/
theorem IsAttr.notMem_bracket (h : IsAttr line name value) : '['.toUInt8 ∉ line := by
  obtain ⟨before, after, rfl, hbefore, hname, hafter, hvalue⟩ := h
  obtain ⟨blank, _, rfl, hblank, c, rest, rfl, hc, hrest⟩ := matches_append.mp hvalue
  have hrest : '['.toUInt8 ∉ rest := notMem_of_class (matches_star.mp hrest) (by decide)
  have hfirst : '['.toUInt8 ≠ c := by
    rintro rfl
    exact absurd hc (by decide)
  simp only [List.mem_append, List.mem_cons, not_or]
  exact ⟨⟨⟨notMem_blanks hbefore (by decide), notMem_identifier hname (by decide)⟩,
    notMem_blanks hafter (by decide)⟩, by decide, notMem_blanks hblank (by decide), hfirst, hrest⟩

end Attributes

section Sections

variable {line name : Text}

/-- **A line matches `reg_sect` exactly if it is a section line.** -/
theorem matches_regSect_iff : Matches regSect line ↔ ∃ name, IsSect line name := by
  have hsplit : regSect = blanks ++ (just '[' ++ (blanks ++ (identifier ++ (blanks ++
    (just ']' ++ blanks))))) := by simp [regSect]
  rw [hsplit]
  constructor
  · intro h
    obtain ⟨front, _, rfl, hfront, h⟩ := matches_append.mp h
    obtain ⟨_, _, rfl, hopen, h⟩ := matches_append.mp h
    obtain ⟨before, _, rfl, hbefore, h⟩ := matches_append.mp h
    obtain ⟨name, _, rfl, hname, h⟩ := matches_append.mp h
    obtain ⟨after, _, rfl, hafter, h⟩ := matches_append.mp h
    obtain ⟨_, back, rfl, hclose, hback⟩ := matches_append.mp h
    obtain rfl := matches_just.mp hopen
    obtain rfl := matches_just.mp hclose
    exact ⟨name, front, before, after, back, by simp, hfront, hbefore, hname, hafter, hback⟩
  · rintro ⟨name, front, before, after, back, rfl, hfront, hbefore, hname, hafter, hback⟩
    simp only [List.append_assoc]
    refine matches_append.mpr ⟨front, _, rfl, hfront, ?_⟩
    refine matches_append.mpr ⟨[_], _, rfl, matches_just.mpr rfl, ?_⟩
    refine matches_append.mpr ⟨before, _, rfl, hbefore, ?_⟩
    refine matches_append.mpr ⟨name, _, rfl, hname, ?_⟩
    refine matches_append.mpr ⟨after, _, rfl, hafter, ?_⟩
    exact matches_append.mpr ⟨[_], back, rfl, matches_just.mpr rfl, hback⟩

/-- **`get_sect_name` returns the name of a section line.** -/
theorem IsSect.getSectName_eq (h : IsSect line name) : getSectName line = .ok name := by
  obtain ⟨front, before, after, back, rfl, hfront, hbefore, hname, hafter, -⟩ := h
  have hfirst : find (front ++ '['.toUInt8 :: (before ++ name ++ after ++ ']'.toUInt8 :: back)) '['
      = some front.length := find_eq (notMem_blanks hfront (by decide))
  have hlast : find (front ++ '['.toUInt8 :: (before ++ name ++ after ++ ']'.toUInt8 :: back)) ']'
      = some (front.length + 1 + (before ++ name ++ after).length) := by
    have hnot : ']'.toUInt8 ∉ front ++ '['.toUInt8 :: (before ++ name ++ after) := by
      simp only [List.mem_append, List.mem_cons, not_or]
      exact ⟨notMem_blanks hfront (by decide), by decide, ⟨notMem_blanks hbefore (by decide),
        notMem_identifier hname (by decide)⟩, notMem_blanks hafter (by decide)⟩
    have hfind : find (_ ++ ']'.toUInt8 :: back) ']' = _ := find_eq hnot
    simp only [List.append_assoc, List.cons_append, List.length_append, List.length_cons] at hfind ⊢
    rw [hfind]
    congr 1
    omega
  have hdrop : (front ++ '['.toUInt8 :: (before ++ name ++ after ++ ']'.toUInt8 :: back)).drop
      (front.length + 1) = before ++ name ++ after ++ ']'.toUInt8 :: back := by
    rw [← List.drop_drop, List.drop_left]
    rfl
  have hwhite : lineIsWhite (before ++ name ++ after) = false := by
    obtain ⟨c, rest, rfl, hc, -⟩ := matches_identifier.mp hname
    simp [lineIsWhite, not_isBlank_of_isWordChar (isWordChar_of_isLetter hc)]
  rw [getSectName, hfirst, hlast]
  simp only [hdrop]
  rw [dAssertElse_of (by omega), ok_bind, show front.length + 1 + (before ++ name ++ after).length -
    front.length - 1 = (before ++ name ++ after).length by omega, List.take_left,
    dAssertElse_of hwhite, ok_bind, firstWord_eq hbefore hname hafter,
    dAssertElse_of (identifier_ne_nil hname), ok_bind]
  rfl

theorem IsSect.mem_bracket (h : IsSect line name) : '['.toUInt8 ∈ line := by
  obtain ⟨front, before, after, back, rfl, -⟩ := h
  simp

end Sections

/-- What a line of a file is, after the comment has been cut off. -/
inductive Line
  | blank
  | attr (name value : Text)
  | sect (name : Text)
  | invalid
  deriving DecidableEq, Repr

/-- The line up to its first `;`. -/
def cut (line : Text) : Text := line.takeWhile (· != ';'.toUInt8)

def classify (line : Text) : Line :=
  if lineIsWhite line then .blank
  else if accepts regAttr line then
    .attr (identifierOf line) (line.dropWhile (· != '='.toUInt8)).tail
  else if accepts regSect line then
    .sect (identifierOf (line.dropWhile (· != '['.toUInt8)).tail)
  else .invalid

section Classify

variable {line name value : Text}

theorem not_white_of_mem {k : Byte} (hmem : k ∈ line) (hk : isBlank k = false) :
    lineIsWhite line = false := by
  rw [lineIsWhite, List.all_eq_false]
  exact ⟨k, hmem, by rw [hk]; decide⟩

theorem IsAttr.not_white (h : IsAttr line name value) : lineIsWhite line = false := by
  refine not_white_of_mem (k := '='.toUInt8) ?_ (by decide)
  obtain ⟨before, after, rfl, -⟩ := h
  simp

theorem IsSect.not_white (h : IsSect line name) : lineIsWhite line = false :=
  not_white_of_mem h.mem_bracket (by decide)

theorem IsAttr.accepts (h : IsAttr line name value) : accepts regAttr line = true :=
  accepts_iff.mpr (matches_regAttr_iff.mpr ⟨name, value, h⟩)

theorem IsSect.accepts (h : IsSect line name) : accepts regSect line = true :=
  accepts_iff.mpr (matches_regSect_iff.mpr ⟨name, h⟩)

/-- No line is both. -/
theorem IsSect.not_attr (h : IsSect line name) : Patterns.accepts regAttr line = false := by
  rw [Bool.eq_false_iff]
  intro hattr
  obtain ⟨other, value, hattr⟩ := matches_regAttr_iff.mp (accepts_iff.mp hattr)
  exact hattr.notMem_bracket h.mem_bracket

theorem IsAttr.classify_eq (h : IsAttr line name value) : classify line = .attr name value := by
  rw [classify, h.not_white, h.accepts, if_neg (by decide), if_pos rfl]
  obtain ⟨before, after, rfl, hbefore, hname, hafter, -⟩ := h
  rw [identifierOf_eq hbefore hname hafter (by decide),
    dropWhile_ne_tail (equal_notMem hbefore hname hafter)]

theorem IsSect.classify_eq (h : IsSect line name) : classify line = .sect name := by
  rw [classify, h.not_white, h.not_attr, h.accepts, if_neg (by decide), if_neg (by decide),
    if_pos rfl]
  obtain ⟨front, before, after, back, rfl, hfront, hbefore, hname, hafter, -⟩ := h
  rw [dropWhile_ne_tail (notMem_blanks hfront (by decide)),
    identifierOf_eq hbefore hname hafter (by decide)]

/-- **The attribute lines with their parts.** -/
theorem classify_eq_attr_iff : classify line = .attr name value ↔ IsAttr line name value := by
  constructor
  · intro h
    have haccepts : Patterns.accepts regAttr line = true := by
      rw [classify] at h
      split_ifs at h with _ hattr
      exact hattr
    obtain ⟨other, text, hattr⟩ := matches_regAttr_iff.mp (accepts_iff.mp haccepts)
    rw [hattr.classify_eq] at h
    obtain ⟨rfl, rfl⟩ := Line.attr.inj h
    exact hattr
  · exact IsAttr.classify_eq

/-- **The section lines with their names.** -/
theorem classify_eq_sect_iff : classify line = .sect name ↔ IsSect line name := by
  constructor
  · intro h
    have haccepts : Patterns.accepts regSect line = true := by
      rw [classify] at h
      split_ifs at h with _ _ hsect
      exact hsect
    obtain ⟨other, hsect⟩ := matches_regSect_iff.mp (accepts_iff.mp haccepts)
    rw [hsect.classify_eq] at h
    obtain rfl := Line.sect.inj h
    exact hsect
  · exact IsSect.classify_eq

theorem classify_eq_blank_iff : classify line = .blank ↔ lineIsWhite line = true := by
  rw [classify]
  split_ifs with hwhite <;> simp [hwhite]

/-- The `=` of an attribute line is its only one. -/
theorem IsAttr.count_equal (h : IsAttr line name value) : line.count '='.toUInt8 = 1 := by
  obtain ⟨before, after, rfl, hbefore, hname, hafter, hvalue⟩ := h
  obtain ⟨blank, _, rfl, hblank, c, rest, rfl, hc, hrest⟩ := matches_append.mp hvalue
  have hrest : '='.toUInt8 ∉ rest := notMem_of_class (matches_star.mp hrest) (by decide)
  have hfirst : c ≠ '='.toUInt8 := by
    rintro rfl
    exact absurd hc (by decide)
  rw [List.count_append, List.count_eq_zero.mpr (equal_notMem hbefore hname hafter),
    List.count_cons_self, List.count_append, List.count_eq_zero.mpr (notMem_blanks hblank (by decide)),
    List.count_cons_of_ne hfirst, List.count_eq_zero.mpr hrest]

end Classify

/-- **The functions that take a line apart agree with the patterns.**  On every line that matches
`reg_attr`, `get_attr` and `get_val` pass their assertions and return the identifier before the
only `=` and the text behind it; on every line that matches `reg_sect`, `get_sect_name` passes its
assertions and returns the identifier between the brackets; no line matches both. -/
theorem splitters_agree (line : Text) :
    (accepts regAttr line = true ↔ ∃ name value, IsAttr line name value) ∧
      (∀ name value, IsAttr line name value →
        getAttr line = .ok name ∧ getVal line = .ok value ∧ line.count '='.toUInt8 = 1) ∧
      (accepts regSect line = true ↔ ∃ name, IsSect line name) ∧
      (∀ name, IsSect line name → getSectName line = .ok name) ∧
      ¬ (accepts regAttr line = true ∧ accepts regSect line = true) := by
  refine ⟨accepts_iff.trans matches_regAttr_iff, ?_, accepts_iff.trans matches_regSect_iff, ?_, ?_⟩
  · intro name value hattr
    exact ⟨hattr.getAttr_eq, hattr.getVal_eq, hattr.count_equal⟩
  · intro name hsect
    exact hsect.getSectName_eq
  · rintro ⟨hattr, hsect⟩
    obtain ⟨name, hsect⟩ := matches_regSect_iff.mp (accepts_iff.mp hsect)
    rw [hsect.not_attr] at hattr
    cases hattr

section Rounds

/-- A round of the loop by the kind of its line. -/
def parseKind (p : Parser) : Line → Except ConfigFailure Parser
  | .blank => .ok { p with lineNo := p.lineNo + 1 }
  | .attr name value =>
      if p.curSect = [] then
        .error (.exception (p.lineNo + 1 : ℕ) "each attribute has to be in a section")
      else if (p.values.find? (idOrder p.curSect name)).isSome then
        .error (.exception (p.lineNo + 1 : ℕ) "duplicate entry")
      else
        .ok { p with
          lineNo := p.lineNo + 1
          values := p.values.insert ⟨p.curSect, name, value⟩ }
  | .sect name =>
      if (p.values.lowerBound (idOrder name [])).any (·.sect = name) then
        .error (.exception (p.lineNo + 1 : ℕ) "section redefinition")
      else .ok { p with curSect := name, lineNo := p.lineNo + 1 }
  | .invalid => .error (.exception (p.lineNo + 1 : ℕ) "invalid line format")

theorem cut_eq_take (s : Text) : cut s = s.take (s.findIdx (· == ';'.toUInt8)) := by
  rw [cut, List.takeWhile_eq_take_findIdx_not]
  simp only [bne, Bool.not_not]

theorem stripComments_eq (s : Text) :
    stripComments s = if lineIsWhite (cut s) then [] else cut s := by
  cases hfind : find s ';' with
  | none =>
      have hcut : cut s = s := by
        rw [cut_eq_take, List.findIdx?_eq_none_iff_findIdx_eq.mp hfind, List.take_length]
      simp only [stripComments, hfind, hcut]
  | some hash =>
      have hcut : cut s = s.take hash := by
        rw [cut_eq_take, (List.findIdx?_eq_some_iff_findIdx_eq.mp hfind).2]
      simp only [stripComments, hfind, hcut]

theorem stripComments_of_not_white {s : Text} (h : lineIsWhite (cut s) = false) :
    stripComments s = cut s ∧ cut s ≠ [] := by
  constructor
  · rw [stripComments_eq, h]
    rfl
  · intro hnil
    rw [hnil] at h
    cases h

/-- **A round of the loop depends on the kind of the line only**; no assertion of the functions
that take a line apart can fail. -/
theorem parseLine_eq (p : Parser) (line : Text) :
    parseLine p line = parseKind p (classify (cut line)) := by
  by_cases hwhite : lineIsWhite (cut line) = true
  · have hblank : classify (cut line) = .blank := classify_eq_blank_iff.mpr hwhite
    have hstrip : stripComments line = [] := by
      rw [stripComments_eq, if_pos hwhite]
    simp only [parseLine, hstrip, hblank, if_true, parseKind]
  · rw [Bool.not_eq_true] at hwhite
    obtain ⟨hstrip, hne⟩ := stripComments_of_not_white hwhite
    simp only [parseLine, hstrip, if_neg hne]
    cases hkind : classify (cut line) with
    | blank =>
        rw [classify_eq_blank_iff.mp hkind] at hwhite
        cases hwhite
    | attr name value =>
        have hattr := classify_eq_attr_iff.mp hkind
        simp only [hattr.accepts, if_true, hattr.getVal_eq, hattr.getAttr_eq, ok_bind, parseKind]
    | sect name =>
        have hsect := classify_eq_sect_iff.mp hkind
        simp only [hsect.accepts, hsect.not_attr, if_true, Bool.false_eq_true, if_false,
          hsect.getSectName_eq, ok_bind, parseKind]
    | invalid =>
        rw [classify, hwhite] at hkind
        simp only [Bool.false_eq_true, if_false] at hkind
        split_ifs at hkind with hattr hsect
        simp only [hattr, hsect, Bool.false_eq_true, if_false, parseKind]

end Rounds

end Config
end CoherentDB
