import CoherentDB.Util.Text

/-!
# `convert_pretty_function`

`LOG` takes the name of its logger from `__PRETTY_FUNCTION__`, the signature of the
function that it stands in.  `convert_pretty_function` reads the signature up to its first
`(` and writes the path of the enclosing scopes, with dots and without template arguments.
At a blank it starts again, since what it has written belongs to the return type.

A `(` in template arguments, as in `f<void (int)>`, ends the loop as well.  `Signature`
has the parts of a signature, and `pretty_function_converted_iff` says for which of them
the path is written.
-/

namespace CoherentDB
namespace Log

open Debug Util

def blank : Byte := ' '.toUInt8

def colon : Byte := ':'.toUInt8

def dot : Byte := '.'.toUInt8

def paren : Byte := '('.toUInt8

def less : Byte := '<'.toUInt8

def greater : Byte := '>'.toUInt8

/-- The variables of the function, with the memory from `out` on; `written` counts the writes to
it. -/
structure Scanner where
  outOff : ℕ
  inTempl : ℕ
  lastOff : ℕ
  out : ℕ → Byte
  written : ℕ

namespace Scanner

variable (sc : Scanner)

/-- `out[out_off++] = c`. -/
def put (c : Byte) : Scanner :=
  { sc with
    outOff := sc.outOff + 1
    out := Function.update sc.out sc.outOff c
    written := sc.written + 1 }

/-- A round within template arguments. -/
def inside (c : Byte) : Scanner :=
  if c = less then { sc with inTempl := sc.inTempl + 1 }
  else if c = greater then { sc with inTempl := sc.inTempl - 1 }
  else sc

/-- A `::`. -/
def separator : Scanner := { sc with lastOff := sc.outOff }.put dot

/-- A separator of the return type. -/
def restart : Scanner := { sc with outOff := 0, lastOff := 0 }

end Scanner

/-- The loop. -/
def convertLoop (sc : Scanner) : Text → Except Failure Scanner
  | [] => .error .assertion
  | c :: rest =>
      if c = paren then .ok sc
      else if c = 0 then .error .assertion
      else if sc.inTempl ≠ 0 then convertLoop (sc.inside c) rest
      else if c = less then convertLoop { sc with inTempl := sc.inTempl + 1 } rest
      else if c = colon then
        match rest with
        | [] => .error .assertion
        | d :: rest => if d = colon then convertLoop sc.separator rest else .error .assertion
      else if c = blank then convertLoop sc.restart rest
      else convertLoop (sc.put c) rest

/-- `convert_pretty_function`. -/
def convertPrettyFunction (s : Text) (out : ℕ → Byte) : Except Failure Scanner := do
  let sc ← convertLoop ⟨0, 0, 0, out, 0⟩ s
  return { sc with out := Function.update sc.out sc.lastOff 0, written := sc.written + 1 }

/-- Text in which every `<` has its `>`. -/
inductive Balanced : Text → Prop
  | nil : Balanced []
  | char (c : Byte) (rest : Text) (hless : c ≠ less) (hgreater : c ≠ greater) (hnul : c ≠ 0)
      (hrest : Balanced rest) : Balanced (c :: rest)
  | nested (inner rest : Text) (hinner : Balanced inner) (hrest : Balanced rest) :
      Balanced (less :: (inner ++ greater :: rest))

/-- The characters of a return type that stand for themselves. -/
def isPlain (c : Byte) : Bool :=
  c != paren && c != 0 && c != less && c != greater && c != colon && c != blank

/-- Template arguments. -/
structure TemplateArgs where
  inner : Text
  balanced : Balanced inner

def TemplateArgs.text (args : TemplateArgs) : Text := less :: (args.inner ++ [greater])

def TemplateArgs.hasParen (args : TemplateArgs) : Bool := args.inner.contains paren

/-- An identifier, with template arguments or without. -/
structure Name where
  ident : Text
  args : Option TemplateArgs
  nonempty : ident ≠ []
  chars : ∀ c ∈ ident, isWordChar c = true

def Name.text (name : Name) : Text := name.ident ++ (name.args.map TemplateArgs.text).getD []

def Name.hasParen (name : Name) : Bool := name.args.any TemplateArgs.hasParen

/-- What a word of a return type is made of. -/
inductive WordPiece
  | char (c : Byte) (hplain : isPlain c = true)
  | separator
  | template (args : TemplateArgs)

def WordPiece.text : WordPiece → Text
  | .char c _ => [c]
  | .separator => [colon, colon]
  | .template args => args.text

abbrev Word := List WordPiece

def Word.text (word : Word) : Text := word.flatMap WordPiece.text

/-- The signature `R1 ... Rk s1:: ... ::sm::f(...`. -/
structure Signature where
  returnType : List Word
  scopes : List Name
  name : Name
  params : Text

/-- The return type, with a blank behind each of its words. -/
def typeText (returnType : List Word) : Text :=
  returnType.flatMap fun word => Word.text word ++ [blank]

def scopesText (scopes : List Name) : Text :=
  scopes.flatMap fun scope => scope.text ++ [colon, colon]

def Signature.text (sig : Signature) : Text :=
  typeText sig.returnType ++ (scopesText sig.scopes ++ (sig.name.text ++ paren :: sig.params))

/-- `s1.s2. ... .sm`. -/
def path (scopes : List Name) : Text := [dot].intercalate (scopes.map Name.ident)

def Signature.path (sig : Signature) : Text := Log.path sig.scopes

/-- The memory has the characters of the text. -/
def Stored (out : ℕ → Byte) (text : Text) : Prop :=
  ∀ (i : ℕ) (h : i < text.length), out i = text[i]

/-- The function returns with the path as a C string in `out`; it has written no more characters
than the signature has, and only so far. -/
def Signature.Converted (sig : Signature) : Prop :=
  ∀ out, ∃ sc, convertPrettyFunction sig.text out = .ok sc ∧ Stored sc.out (sig.path ++ [0]) ∧
    sc.written ≤ sig.text.length ∧ ∀ i, sig.text.length ≤ i → sc.out i = out i

/-- The text in front of the last `::` before the first template arguments with a `(`, if any of
the word have one; `current` and `scope` are what is there already. -/
def scopeAtParen (current scope : Text) : Word → Option Text
  | [] => none
  | .char c _ :: rest => scopeAtParen (current ++ [c]) scope rest
  | .separator :: rest => scopeAtParen (current ++ [dot]) current rest
  | .template args :: rest =>
      if args.hasParen then some scope else scopeAtParen current scope rest

/-- The same for the first word of a return type that has such template arguments. -/
def scopeInType (returnType : List Word) : Option Text :=
  returnType.findSome? (scopeAtParen [] [])

/-- No template arguments in front of those of the function's own name have a `(`.  Or the first
that do are in the return type, behind the path of the function itself. -/
def Signature.ReachesName (sig : Signature) : Prop :=
  match scopeInType sig.returnType with
  | none => ∀ scope ∈ sig.scopes, scope.hasParen = false
  | some text => text = sig.path

section Rounds

variable {sc : Scanner} {c : Byte} {rest inner : Text}

theorem convertLoop_paren : convertLoop sc (paren :: rest) = .ok sc := by
  rw [convertLoop.eq_def]
  exact if_pos rfl

/-- A round that neither ends the loop nor the process. -/
theorem convertLoop_inside (h : sc.inTempl ≠ 0) (hparen : c ≠ paren) (hnul : c ≠ 0) :
    convertLoop sc (c :: rest) = convertLoop (sc.inside c) rest := by
  rw [convertLoop.eq_def]
  simp only [if_neg hparen, if_neg hnul, if_pos h]

theorem convertLoop_less (h : sc.inTempl = 0) :
    convertLoop sc (less :: rest) = convertLoop { sc with inTempl := 1 } rest := by
  rw [convertLoop.eq_def]
  simp only [show less ≠ paren by decide, show less ≠ 0 by decide, h, ne_eq, not_true_eq_false,
    if_false, if_true]

theorem convertLoop_separator (h : sc.inTempl = 0) :
    convertLoop sc (colon :: colon :: rest) = convertLoop sc.separator rest := by
  rw [convertLoop.eq_def]
  simp only [show colon ≠ paren by decide, show colon ≠ 0 by decide, show colon ≠ less by decide, h,
    ne_eq, not_true_eq_false, if_false, if_true]

theorem convertLoop_blank (h : sc.inTempl = 0) :
    convertLoop sc (blank :: rest) = convertLoop sc.restart rest := by
  rw [convertLoop.eq_def]
  simp only [show blank ≠ paren by decide, show blank ≠ 0 by decide, show blank ≠ less by decide,
    show blank ≠ colon by decide, h, ne_eq, not_true_eq_false, if_false, if_true]

theorem convertLoop_plain (h : sc.inTempl = 0) (hplain : isPlain c = true) :
    convertLoop sc (c :: rest) = convertLoop (sc.put c) rest := by
  simp only [isPlain, Bool.and_eq_true, bne_iff_ne] at hplain
  obtain ⟨⟨⟨⟨⟨hparen, hnul⟩, hless⟩, -⟩, hcolon⟩, hblank⟩ := hplain
  rw [convertLoop.eq_def]
  simp only [if_neg hparen, if_neg hnul, if_neg (not_not.mpr h), if_neg hless, if_neg hcolon,
    if_neg hblank]

/-- **Balanced text within template arguments** is skipped, or ends the loop at its first `(`. -/
theorem convertLoop_balanced (hbalanced : Balanced inner) (h : sc.inTempl ≠ 0) (rest : Text) :
    (paren ∉ inner → convertLoop sc (inner ++ rest) = convertLoop sc rest) ∧
      (paren ∈ inner → ∃ depth, convertLoop sc (inner ++ rest) =
        .ok { sc with inTempl := depth }) := by
  induction hbalanced generalizing sc rest with
  | nil => exact ⟨fun _ => rfl, fun hmem => absurd hmem List.not_mem_nil⟩
  | char c inner hless hgreater hnul hinner ih =>
      by_cases hparen : c = paren
      · subst hparen
        exact ⟨fun hnot => absurd List.mem_cons_self hnot, fun _ => ⟨_, convertLoop_paren⟩⟩
      · have hround : sc.inside c = sc := by
          rw [Scanner.inside, if_neg hless, if_neg hgreater]
        rw [List.cons_append, convertLoop_inside h hparen hnul, hround, List.mem_cons]
        obtain ⟨hskip, hstop⟩ := ih h rest
        exact ⟨fun hnot => hskip fun hmem => hnot (Or.inr hmem),
          fun hmem => hstop (hmem.resolve_left fun heq => hparen heq.symm)⟩
  | nested inner after hinner hafter ihinner ihafter =>
      have hopen : sc.inside less = { sc with inTempl := sc.inTempl + 1 } := if_pos rfl
      have hsplit : less :: (inner ++ greater :: after) ++ rest =
          less :: (inner ++ (greater :: (after ++ rest))) := by simp
      have hdeeper : (sc.inside less).inTempl ≠ 0 := by
        rw [hopen]
        exact Nat.succ_ne_zero _
      rw [hsplit, convertLoop_inside h (by decide) (by decide)]
      obtain ⟨hskip, hstop⟩ := ihinner hdeeper (greater :: (after ++ rest))
      have hclose : convertLoop (sc.inside less) (greater :: (after ++ rest)) =
          convertLoop sc (after ++ rest) := by
        rw [convertLoop_inside hdeeper (by decide) (by decide), hopen]
        rfl
      obtain ⟨hskip', hstop'⟩ := ihafter h rest
      simp only [List.mem_cons, List.mem_append, show paren ≠ less by decide,
        show paren ≠ greater by decide, false_or]
      refine ⟨fun hnot => ?_, fun hmem => ?_⟩
      · rw [hskip fun hmem => hnot (Or.inl hmem), hclose]
        exact hskip' fun hmem => hnot (Or.inr hmem)
      · by_cases hearly : paren ∈ inner
        · obtain ⟨depth, hdone⟩ := hstop hearly
          exact ⟨depth, by rw [hdone, hopen]⟩
        · rw [hskip hearly, hclose]
          exact hstop' (hmem.resolve_left hearly)

theorem TemplateArgs.hasParen_iff {args : TemplateArgs} :
    args.hasParen = true ↔ paren ∈ args.inner := List.contains_iff_mem

/-- Template arguments are skipped, or end the loop. -/
theorem convertLoop_args (h : sc.inTempl = 0) (args : TemplateArgs) (rest : Text) :
    (args.hasParen = false → convertLoop sc (args.text ++ rest) = convertLoop sc rest) ∧
      (args.hasParen = true → ∃ depth, convertLoop sc (args.text ++ rest) =
        .ok { sc with inTempl := depth }) := by
  have hsplit : args.text ++ rest = less :: (args.inner ++ (greater :: rest)) := by
    simp [TemplateArgs.text]
  have hdeeper : ({ sc with inTempl := 1 } : Scanner).inTempl ≠ 0 := Nat.one_ne_zero
  obtain ⟨hskip, hstop⟩ := convertLoop_balanced args.balanced hdeeper (greater :: rest)
  rw [hsplit, convertLoop_less h]
  refine ⟨fun hnone => ?_, fun hsome => hstop (TemplateArgs.hasParen_iff.mp hsome)⟩
  have hnot : paren ∉ args.inner := by
    rw [← TemplateArgs.hasParen_iff, hnone]
    decide
  rw [hskip hnot, convertLoop_inside hdeeper (by decide) (by decide)]
  have hback : Scanner.inside { sc with inTempl := 1 } greater = sc := by
    rw [Scanner.inside, if_neg (by decide), if_pos rfl]
    cases sc
    simp_all
  rw [hback]

end Rounds

section Reading

/-- The loop is between template arguments, has written `current` since the last blank, and would
end with `scope`. -/
structure Scanner.Reads (sc : Scanner) (current scope : Text) : Prop where
  outside : sc.inTempl = 0
  outOff : sc.outOff = current.length
  lastOff : sc.lastOff = scope.length
  le : scope.length ≤ current.length
  hasCurrent : Stored sc.out current
  hasScope : Stored sc.out scope

/-- The loop ends on this text, with `scope` in front of `last_off`. -/
def Scanner.Stops (sc : Scanner) (text scope : Text) : Prop :=
  ∃ sc', convertLoop sc text = .ok sc' ∧ sc'.lastOff = scope.length ∧ Stored sc'.out scope

variable {sc : Scanner} {out : ℕ → Byte} {c : Byte} {text current scope rest : Text}

theorem stored_nil (out : ℕ → Byte) : Stored out [] := fun _ h => absurd h (Nat.not_lt_zero _)

theorem Stored.update (h : Stored out text) {i : ℕ} (hi : text.length ≤ i) :
    Stored (Function.update out i c) text := by
  intro j hj
  rw [Function.update_of_ne (by omega)]
  exact h j hj

theorem Stored.concat (h : Stored out text) :
    Stored (Function.update out text.length c) (text ++ [c]) := by
  intro j hj
  rcases Nat.lt_or_ge j text.length with hlt | hge
  · rw [List.getElem_append_left hlt]
    exact h.update le_rfl j hlt
  · have hlast : j = text.length := by
      rw [List.length_append, List.length_singleton] at hj
      omega
    subst hlast
    simp

theorem Scanner.Reads.put (h : sc.Reads current scope) (c : Byte) :
    (sc.put c).Reads (current ++ [c]) scope := by
  refine ⟨h.outside, ?_, h.lastOff, ?_, ?_, ?_⟩
  · rw [List.length_append, List.length_singleton, ← h.outOff]
    rfl
  · rw [List.length_append]
    exact h.le.trans (Nat.le_add_right _ _)
  · show Stored (Function.update sc.out sc.outOff c) (current ++ [c])
    rw [h.outOff]
    exact h.hasCurrent.concat
  · refine h.hasScope.update ?_
    rw [h.outOff]
    exact h.le

theorem Scanner.Reads.separator (h : sc.Reads current scope) :
    sc.separator.Reads (current ++ [dot]) current := by
  have hmarked : Scanner.Reads { sc with lastOff := sc.outOff } current current :=
    ⟨h.outside, h.outOff, h.outOff, le_rfl, h.hasCurrent, h.hasCurrent⟩
  exact hmarked.put dot

theorem Scanner.Reads.restart (h : sc.Reads current scope) : sc.restart.Reads [] [] :=
  ⟨h.outside, rfl, rfl, le_rfl, stored_nil _, stored_nil _⟩

/-- The loop can end wherever it is. -/
theorem Scanner.Reads.stops (h : sc.Reads current scope) {depth : ℕ}
    (hend : convertLoop sc text = .ok { sc with inTempl := depth }) : sc.Stops text scope :=
  ⟨_, hend, h.lastOff, h.hasScope⟩

/-- **A word of the return type** is read to its end, or ends the loop. -/
theorem Scanner.Reads.word (h : sc.Reads current scope) (word : Word) (rest : Text) :
    (∀ found, scopeAtParen current scope word = some found →
        sc.Stops (Word.text word ++ rest) found) ∧
      (scopeAtParen current scope word = none → ∃ sc' current' scope', sc'.Reads current' scope' ∧
        convertLoop sc (Word.text word ++ rest) = convertLoop sc' rest) := by
  induction word generalizing sc current scope with
  | nil =>
      refine ⟨fun found hfound => ?_, fun _ => ⟨sc, current, scope, h, rfl⟩⟩
      cases hfound
  | cons piece pieces ih =>
      have hsplit : Word.text (piece :: pieces) ++ rest =
          piece.text ++ (Word.text pieces ++ rest) := by
        rw [Word.text, List.flatMap_cons, List.append_assoc]
        rfl
      rw [hsplit]
      cases piece with
      | char c hplain =>
          have hround : convertLoop sc (c :: (Word.text pieces ++ rest)) = _ :=
            convertLoop_plain h.outside hplain
          simp only [WordPiece.text, List.singleton_append, scopeAtParen, Scanner.Stops, hround]
          exact ih (h.put c)
      | separator =>
          have hround : convertLoop sc (colon :: colon :: (Word.text pieces ++ rest)) = _ :=
            convertLoop_separator h.outside
          simp only [WordPiece.text, List.cons_append, List.nil_append, scopeAtParen,
            Scanner.Stops, hround]
          exact ih h.separator
      | template args =>
          obtain ⟨hskip, hstop⟩ := convertLoop_args h.outside args (Word.text pieces ++ rest)
          rw [scopeAtParen]
          split_ifs with hparen
          · refine ⟨fun found hfound => ?_, fun hnone => ?_⟩
            · obtain rfl := Option.some.inj hfound
              obtain ⟨depth, hend⟩ := hstop hparen
              exact h.stops hend
            · cases hnone
          · simp only [WordPiece.text, Scanner.Stops, hskip (Bool.eq_false_of_not_eq_true hparen)]
            exact ih h

/-- **A return type** is read to its end, or ends the loop in one of its words. -/
theorem Scanner.Reads.returnType (h : sc.Reads [] []) (words : List Word) (rest : Text) :
    (∀ found, scopeInType words = some found → sc.Stops (typeText words ++ rest) found) ∧
      (scopeInType words = none → ∃ sc', sc'.Reads [] [] ∧
        convertLoop sc (typeText words ++ rest) = convertLoop sc' rest) := by
  induction words generalizing sc with
  | nil =>
      refine ⟨fun found hfound => ?_, fun _ => ⟨sc, h, rfl⟩⟩
      cases hfound
  | cons word words ih =>
      have hsplit : typeText (word :: words) ++ rest =
          Word.text word ++ (blank :: (typeText words ++ rest)) := by
        rw [typeText, List.flatMap_cons, List.append_assoc, List.append_assoc]
        rfl
      obtain ⟨hstop, hread⟩ := h.word word (blank :: (typeText words ++ rest))
      rw [hsplit, scopeInType, List.findSome?_cons]
      cases hfirst : scopeAtParen [] [] word with
      | some found =>
          refine ⟨fun other hother => ?_, fun hnone => ?_⟩
          · obtain rfl := Option.some.inj hother
            exact hstop found hfirst
          · cases hnone
      | none =>
          obtain ⟨sc', current', scope', hreads, hword⟩ := hread hfirst
          simp only [Scanner.Stops, hword, convertLoop_blank hreads.outside]
          exact ih hreads.restart

/-- The characters of an identifier are copied. -/
theorem Scanner.Reads.ident (h : sc.Reads current scope) (ident : Text)
    (hchars : ∀ c ∈ ident, isPlain c = true) (rest : Text) :
    ∃ sc', sc'.Reads (current ++ ident) scope ∧
      convertLoop sc (ident ++ rest) = convertLoop sc' rest := by
  induction ident generalizing sc current with
  | nil =>
      rw [List.append_nil]
      exact ⟨sc, h, rfl⟩
  | cons c ident ih =>
      obtain ⟨hc, hident⟩ := List.forall_mem_cons.mp hchars
      obtain ⟨sc', hreads, hloop⟩ := ih (h.put c) hident
      rw [List.append_assoc] at hreads
      refine ⟨sc', hreads, ?_⟩
      rw [List.cons_append, convertLoop_plain h.outside hc, hloop]

theorem isPlain_of_isWordChar (h : isWordChar c = true) : isPlain c = true := by
  have hother : ∀ d, isWordChar d = false → c ≠ d := by
    rintro d hd rfl
    rw [h] at hd
    cases hd
  simp only [isPlain, Bool.and_eq_true, bne_iff_ne]
  exact ⟨⟨⟨⟨⟨hother _ (by decide), hother _ (by decide)⟩, hother _ (by decide)⟩,
    hother _ (by decide)⟩, hother _ (by decide)⟩, hother _ (by decide)⟩

/-- **A name** is copied without its template arguments, or ends the loop in them. -/
theorem Scanner.Reads.name (h : sc.Reads current scope) (name : Name) (rest : Text) :
    (name.hasParen = true → sc.Stops (name.text ++ rest) scope) ∧
      (name.hasParen = false → ∃ sc', sc'.Reads (current ++ name.ident) scope ∧
        convertLoop sc (name.text ++ rest) = convertLoop sc' rest) := by
  obtain ⟨sc', hreads, hloop⟩ := h.ident name.ident
    (fun c hc => isPlain_of_isWordChar (name.chars c hc))
    ((name.args.map TemplateArgs.text).getD [] ++ rest)
  rw [Name.text, List.append_assoc]
  simp only [Scanner.Stops, hloop]
  cases hargs : name.args with
  | none =>
      refine ⟨fun hparen => ?_, fun _ => ⟨sc', hreads, rfl⟩⟩
      rw [Name.hasParen, hargs] at hparen
      cases hparen
  | some args =>
      obtain ⟨hskip, hstop⟩ := convertLoop_args hreads.outside args rest
      rw [Name.hasParen, hargs]
      refine ⟨fun hparen => ?_, fun hnone => ⟨sc', hreads, hskip hnone⟩⟩
      obtain ⟨depth, hend⟩ := hstop hparen
      exact hreads.stops hend

/-- What is written for scopes, up to the next name. -/
def dotted (scopes : List Name) : Text := scopes.flatMap fun scope => scope.ident ++ [dot]

theorem dotted_concat (scopes : List Name) (name : Name) :
    dotted (scopes ++ [name]) = dotted scopes ++ name.ident ++ [dot] := by
  rw [dotted, List.flatMap_append, List.flatMap_singleton, List.append_assoc]
  rfl

theorem path_concat (scopes : List Name) (name : Name) :
    path (scopes ++ [name]) = dotted scopes ++ name.ident := by
  induction scopes with
  | nil => exact List.intercalate_singleton
  | cons scope scopes ih =>
      have hne : (scopes ++ [name]).map Name.ident ≠ [] := by simp
      rw [path] at ih ⊢
      rw [List.cons_append, List.map_cons, List.intercalate_cons_of_ne_nil hne, ih]
      simp [dotted]

/-- **Scopes without a `(`** are read to their end. -/
theorem Scanner.Reads.scopes {before : List Name} (h : sc.Reads (dotted before) (path before))
    (scopes : List Name) (rest : Text) (hnone : ∀ name ∈ scopes, name.hasParen = false) :
    ∃ sc', sc'.Reads (dotted (before ++ scopes)) (path (before ++ scopes)) ∧
      convertLoop sc (scopesText scopes ++ rest) = convertLoop sc' rest := by
  induction scopes generalizing sc before with
  | nil =>
      rw [List.append_nil]
      exact ⟨sc, h, rfl⟩
  | cons scope scopes ih =>
      obtain ⟨hparen, hothers⟩ := List.forall_mem_cons.mp hnone
      have hsplit : scopesText (scope :: scopes) ++ rest =
          scope.text ++ (colon :: colon :: (scopesText scopes ++ rest)) := by
        rw [scopesText, List.flatMap_cons, List.append_assoc, List.append_assoc]
        rfl
      obtain ⟨sc', hreads, hloop⟩ :=
        (h.name scope (colon :: colon :: (scopesText scopes ++ rest))).2 hparen
      have hnext : sc'.separator.Reads (dotted (before ++ [scope])) (path (before ++ [scope])) := by
        rw [dotted_concat, path_concat]
        exact hreads.separator
      obtain ⟨sc'', hreads', hloop'⟩ := ih hnext hothers
      rw [List.append_assoc] at hreads'
      refine ⟨sc'', hreads', ?_⟩
      rw [hsplit, hloop, convertLoop_separator hreads.outside, hloop']

/-- **A scope with a `(`** ends the loop with the path of those in front of it. -/
theorem Scanner.Reads.stops_at_scope (h : sc.Reads [] []) {front : List Name}
    (hnone : ∀ name ∈ front, name.hasParen = false) {name : Name} (hname : name.hasParen = true)
    (back : List Name) (rest : Text) :
    sc.Stops (scopesText (front ++ name :: back) ++ rest) (path front) := by
  have hsplit : scopesText (front ++ name :: back) ++ rest =
      scopesText front ++ (name.text ++ (colon :: colon :: (scopesText back ++ rest))) := by
    simp [scopesText]
  have hstart : sc.Reads (dotted []) (path []) := h
  obtain ⟨sc', hreads, hloop⟩ := hstart.scopes front _ hnone
  rw [hsplit, Scanner.Stops, hloop]
  exact (hreads.name name _).1 hname

end Reading

section Bounds

/-- A loop over `n` characters: it writes fewer, and not beyond where these take `out_off`. -/
structure Scanner.Within (sc sc' : Scanner) (n : ℕ) : Prop where
  pos : 1 ≤ n
  written : sc'.written + 1 ≤ sc.written + n
  lastOff : sc'.lastOff + 1 ≤ sc.outOff + n
  kept : ∀ i, sc.outOff + n ≤ i + 1 → sc'.out i = sc.out i

variable {sc sc₁ sc' : Scanner} {n m : ℕ}

/-- One round in front: it writes at most one character, at `out_off`. -/
theorem Scanner.Within.round (h : sc₁.Within sc' n) (hn : n + 1 ≤ m)
    (hout : sc₁.outOff ≤ sc.outOff + 1) (hwritten : sc₁.written ≤ sc.written + 1)
    (hkept : ∀ i, sc.outOff + 1 ≤ i → sc₁.out i = sc.out i) : sc.Within sc' m := by
  have hpos := h.pos
  have hsum := h.written
  have hlast := h.lastOff
  refine ⟨by omega, by omega, by omega, fun i hi => ?_⟩
  rw [h.kept i (by omega), hkept i (by omega)]

theorem Scanner.put_kept (sc : Scanner) (c : Byte) (i : ℕ) (hi : sc.outOff + 1 ≤ i) :
    (sc.put c).out i = sc.out i :=
  Function.update_of_ne (by omega) _ _

/-- Within template arguments only the depth changes. -/
theorem Scanner.inside_eq (sc : Scanner) (c : Byte) :
    ∃ depth, sc.inside c = { sc with inTempl := depth } := by
  rw [Scanner.inside]
  split_ifs
  · exact ⟨_, rfl⟩
  · exact ⟨_, rfl⟩
  · exact ⟨sc.inTempl, rfl⟩

theorem convertLoop_within {s : Text} (hle : sc.lastOff ≤ sc.outOff)
    (h : convertLoop sc s = .ok sc') : sc.Within sc' s.length := by
  fun_induction convertLoop sc s with
  | case1 | case3 | case6 | case8 => cases h
  | case2 sc rest =>
      obtain rfl := Except.ok.inj h
      simp only [List.length_cons]
      exact ⟨by omega, by omega, by omega, fun _ _ => rfl⟩
  | case4 sc c rest hparen hnul hinside ih =>
      obtain ⟨depth, hround⟩ := sc.inside_eq c
      rw [hround] at ih h
      exact (ih hle h).round le_rfl (Nat.le_succ _) (Nat.le_succ _) fun _ _ => rfl
  | case5 sc rest houtside hparen hnul ih =>
      exact (ih hle h).round le_rfl (Nat.le_succ _) (Nat.le_succ _) fun _ _ => rfl
  | case7 sc houtside rest hparen hnul hless ih =>
      exact (ih (Nat.le_succ _) h).round (Nat.le_succ _) le_rfl le_rfl (sc.put_kept dot)
  | case9 sc rest houtside hparen hnul hless hcolon ih =>
      exact (ih le_rfl h).round le_rfl (Nat.zero_le _) (Nat.le_succ _) fun _ _ => rfl
  | case10 sc c rest hparen hnul houtside hless hcolon hblank ih =>
      exact (ih (Nat.le_succ_of_le hle) h).round le_rfl le_rfl le_rfl (sc.put_kept c)

end Bounds

section Signatures

variable {sig : Signature}

/-- What stands in `out` when the function returns. -/
def Signature.found (sig : Signature) : Text :=
  match scopeInType sig.returnType with
  | none => Log.path (sig.scopes.takeWhile fun scope => !scope.hasParen)
  | some text => text

/-- The scopes that are read: all of them, or those in front of the first one with a `(`. -/
theorem scopes_read_cases (scopes : List Name) :
    ((∀ scope ∈ scopes, scope.hasParen = false) ∧
        scopes.takeWhile (fun scope => !scope.hasParen) = scopes) ∨
      ∃ front name back, scopes = front ++ name :: back ∧
        (∀ scope ∈ front, scope.hasParen = false) ∧ name.hasParen = true ∧
        scopes.takeWhile (fun scope => !scope.hasParen) = front := by
  induction scopes with
  | nil => exact Or.inl ⟨fun scope hmem => absurd hmem List.not_mem_nil, rfl⟩
  | cons scope scopes ih =>
      cases hparen : scope.hasParen with
      | true =>
          refine Or.inr ⟨[], scope, scopes, rfl, fun other hmem => absurd hmem List.not_mem_nil,
            hparen, ?_⟩
          rw [List.takeWhile_cons, hparen]
          rfl
      | false =>
          have htake : (scope :: scopes).takeWhile (fun scope => !scope.hasParen) =
              scope :: scopes.takeWhile (fun scope => !scope.hasParen) := by
            rw [List.takeWhile_cons, hparen]
            rfl
          rw [htake]
          rcases ih with ⟨hnone, hall⟩ | ⟨front, name, back, rfl, hfront, hname, hread⟩
          · exact Or.inl ⟨List.forall_mem_cons.mpr ⟨hparen, hnone⟩, by rw [hall]⟩
          · exact Or.inr ⟨scope :: front, name, back, rfl,
              List.forall_mem_cons.mpr ⟨hparen, hfront⟩, hname, by rw [hread]⟩

/-- Up to a `(` in the template arguments of the name, or the one behind it. -/
theorem Scanner.Reads.stops_at_name {sc : Scanner} {current scope : Text}
    (h : sc.Reads current scope) (name : Name) (params : Text) :
    sc.Stops (name.text ++ paren :: params) scope := by
  obtain ⟨hstop, hread⟩ := h.name name (paren :: params)
  cases hparen : name.hasParen with
  | true => exact hstop hparen
  | false =>
      obtain ⟨sc', hreads, hloop⟩ := hread hparen
      rw [Scanner.Stops, hloop]
      exact hreads.stops convertLoop_paren

/-- **The loop ends on every signature**, with the path of the name that its first `(` belongs
to. -/
theorem Signature.stops (sig : Signature) (out : ℕ → Byte) :
    Scanner.Stops ⟨0, 0, 0, out, 0⟩ sig.text sig.found := by
  have hstart : Scanner.Reads ⟨0, 0, 0, out, 0⟩ [] [] :=
    ⟨rfl, rfl, rfl, le_rfl, stored_nil _, stored_nil _⟩
  obtain ⟨hstop, hread⟩ := hstart.returnType sig.returnType
    (scopesText sig.scopes ++ (sig.name.text ++ paren :: sig.params))
  rw [Signature.found, Signature.text]
  cases htype : scopeInType sig.returnType with
  | some text => exact hstop text htype
  | none =>
      obtain ⟨sc, hreads, hloop⟩ := hread htype
      rw [Scanner.Stops, hloop]
      rcases scopes_read_cases sig.scopes with ⟨hnone, hall⟩ |
        ⟨front, name, back, hsplit, hfront, hname, hfound⟩
      · have hempty : sc.Reads (dotted []) (Log.path []) := hreads
        obtain ⟨sc', hreads', hloop'⟩ := hempty.scopes sig.scopes _ hnone
        rw [hall, hloop']
        exact hreads'.stops_at_name sig.name sig.params
      · rw [hfound, hsplit]
        exact hreads.stops_at_scope hfront hname back _

theorem nul_notMem_ident (name : Name) : 0 ∉ name.ident := by
  intro hmem
  have hchar := name.chars 0 hmem
  exact absurd hchar (by decide)

theorem nul_notMem_path (scopes : List Name) : 0 ∉ path scopes := by
  rcases List.eq_nil_or_concat scopes with rfl | ⟨scopes, name, rfl⟩
  · exact List.not_mem_nil
  · rw [List.concat_eq_append, path_concat, List.mem_append, dotted, List.mem_flatMap]
    rintro (⟨scope, -, hmem⟩ | hmem)
    · rcases List.mem_append.mp hmem with hident | hdot
      · exact nul_notMem_ident scope hident
      · exact absurd (List.mem_singleton.mp hdot) (by decide)
    · exact nul_notMem_ident name hmem

theorem nul_notMem_scopeAtParen {word : Word} {current scope found : Text} (hcurrent : 0 ∉ current)
    (hscope : 0 ∉ scope) (h : scopeAtParen current scope word = some found) : 0 ∉ found := by
  induction word generalizing current scope with
  | nil => cases h
  | cons piece word ih =>
      cases piece with
      | char c hplain =>
          refine ih ?_ hscope h
          rw [List.mem_append, List.mem_singleton, not_or]
          refine ⟨hcurrent, ?_⟩
          rintro rfl
          exact absurd hplain (by decide)
      | separator =>
          refine ih ?_ hcurrent h
          rw [List.mem_append, List.mem_singleton, not_or]
          exact ⟨hcurrent, by decide⟩
      | template args =>
          rw [scopeAtParen] at h
          split_ifs at h with hparen
          · obtain rfl := Option.some.inj h
            exact hscope
          · exact ih hcurrent hscope h

theorem Signature.nul_notMem_found (sig : Signature) : 0 ∉ sig.found := by
  rw [Signature.found]
  cases htype : scopeInType sig.returnType with
  | none => exact nul_notMem_path _
  | some text =>
      obtain ⟨word, -, hword⟩ := List.exists_of_findSome?_eq_some htype
      exact nul_notMem_scopeAtParen List.not_mem_nil List.not_mem_nil hword

/-- A C string in memory is not longer than another one there. -/
theorem Stored.length_le {out : ℕ → Byte} {a b : Text} (ha : Stored out (a ++ [0]))
    (hb : Stored out (b ++ [0])) (hnul : 0 ∉ a) : a.length ≤ b.length := by
  by_contra hlt
  have hlt : b.length < a.length := by omega
  have hzero : out b.length = 0 := by
    rw [hb b.length (by simp)]
    simp
  have hchar : out b.length = a[b.length] := by
    rw [ha b.length (by rw [List.length_append]; omega), List.getElem_append_left hlt]
  refine hnul ?_
  rw [← hzero, hchar]
  exact List.getElem_mem hlt

/-- Memory has one C string. -/
theorem Stored.eq {out : ℕ → Byte} {a b : Text} (ha : Stored out (a ++ [0]))
    (hb : Stored out (b ++ [0])) (hnula : 0 ∉ a) (hnulb : 0 ∉ b) : a = b := by
  have hlength : a.length = b.length := le_antisymm (ha.length_le hb hnula) (hb.length_le ha hnulb)
  refine List.ext_getElem hlength fun i hi hi' => ?_
  have hfirst := ha i (by rw [List.length_append]; omega)
  have hsecond := hb i (by rw [List.length_append]; omega)
  rw [List.getElem_append_left hi] at hfirst
  rw [List.getElem_append_left hi'] at hsecond
  exact hfirst.symm.trans hsecond

/-- **What the function does with a signature.** -/
theorem Signature.convertPrettyFunction_eq (sig : Signature) (out : ℕ → Byte) :
    ∃ sc, convertPrettyFunction sig.text out = .ok sc ∧ Stored sc.out (sig.found ++ [0]) ∧
      sc.written ≤ sig.text.length ∧ ∀ i, sig.text.length ≤ i → sc.out i = out i := by
  obtain ⟨sc, hloop, hlast, hstored⟩ := sig.stops out
  obtain ⟨-, hwritten, hoff, hkept⟩ := convertLoop_within (Nat.zero_le 0) hloop
  simp only [Nat.zero_add] at hwritten hoff hkept
  refine ⟨_, by rw [convertPrettyFunction, hloop, ok_bind]; rfl, ?_, hwritten, fun i hi => ?_⟩
  · rw [hlast]
    exact hstored.concat
  · rw [← hkept i (by omega)]
    exact Function.update_of_ne (by omega) _ _

theorem Signature.converted_iff_found : sig.Converted ↔ sig.found = sig.path := by
  constructor
  · intro h
    obtain ⟨sc, hdone, hstored, -⟩ := h fun _ => 0
    obtain ⟨sc', hdone', hstored', -⟩ := sig.convertPrettyFunction_eq fun _ => 0
    obtain rfl := Except.ok.inj (hdone.symm.trans hdone')
    exact hstored'.eq hstored sig.nul_notMem_found (nul_notMem_path _)
  · intro h out
    rw [← h]
    exact sig.convertPrettyFunction_eq out

/-- More scopes have a longer path. -/
theorem length_path_lt (before : List Name) (name : Name) (after : List Name) :
    (path before).length < (path (before ++ name :: after)).length := by
  have hlength : ∀ scopes : List Name, (path scopes).length = (dotted scopes).length - 1 := by
    intro scopes
    rcases List.eq_nil_or_concat scopes with rfl | ⟨scopes, name, rfl⟩
    · rfl
    · rw [List.concat_eq_append, path_concat, dotted_concat]
      simp
  have hident : 0 < name.ident.length := List.length_pos_of_ne_nil name.nonempty
  rw [hlength, hlength, dotted, dotted, List.flatMap_append, List.flatMap_cons]
  simp only [List.length_append, List.length_singleton]
  omega

theorem Signature.found_eq_path_iff : sig.found = sig.path ↔ sig.ReachesName := by
  rw [Signature.found, Signature.ReachesName]
  cases scopeInType sig.returnType with
  | some text => exact Iff.rfl
  | none =>
      rcases scopes_read_cases sig.scopes with ⟨hnone, hall⟩ |
        ⟨front, name, back, hsplit, hfront, hname, hfound⟩
      · rw [hall]
        exact iff_of_true rfl hnone
      · refine iff_of_false (fun hpath => ?_) fun hnone => ?_
        · have hlt := length_path_lt front name back
          rw [hfound, Signature.path, hsplit] at hpath
          exact absurd (congrArg List.length hpath) hlt.ne
        · have hmem : name ∈ sig.scopes := by
            rw [hsplit]
            exact List.mem_append_right front List.mem_cons_self
          rw [hnone name hmem] at hname
          cases hname

end Signatures

/-- **When `convert_pretty_function` writes the path of the scopes.**  For every signature: exactly
if no template arguments in front of those of the function's own name have a `(`, or the first that
do stand in the return type behind the same path. -/
theorem pretty_function_converted_iff (sig : Signature) : sig.Converted ↔ sig.ReachesName :=
  Signature.converted_iff_found.trans Signature.found_eq_path_iff

theorem balanced_of_all {s : Text} (h : s.all (fun c => c != less && c != greater && c != 0) = true) :
    Balanced s := by
  induction s with
  | nil => exact .nil
  | cons c s ih =>
      simp only [List.all_cons, Bool.and_eq_true, bne_iff_ne] at h
      obtain ⟨⟨⟨hless, hgreater⟩, hnul⟩, hrest⟩ := h
      refine .char c s hless hgreater hnul (ih ?_)
      simpa only [Bool.and_eq_true, bne_iff_ne] using hrest

/-- `int a<void (int)>::b::f()`, a member of a class in a class template that was given a function
type. -/
def functionTypeArgument : Signature where
  returnType := [[.char 'i'.toUInt8 (by decide), .char 'n'.toUInt8 (by decide),
    .char 't'.toUInt8 (by decide)]]
  scopes := [⟨chars "a", some ⟨chars "void (int)", balanced_of_all (by decide)⟩, by decide,
    List.all_eq_true.mp (by decide)⟩, ⟨chars "b", none, by decide, List.all_eq_true.mp (by decide)⟩]
  name := ⟨chars "f", none, by decide, List.all_eq_true.mp (by decide)⟩
  params := chars ")"

/-- The function stops at the `(` of the function type and writes the empty path instead of
`a.b`. -/
theorem function_type_cuts_path :
    functionTypeArgument.text = chars "int a<void (int)>::b::f()" ∧
      functionTypeArgument.path = chars "a.b" ∧
      (∃ sc, convertPrettyFunction (chars "int a<void (int)>::b::f()") (fun _ => 0) = .ok sc ∧
        Stored sc.out [0]) ∧
      ¬ functionTypeArgument.Converted := by
  have htext : functionTypeArgument.text = chars "int a<void (int)>::b::f()" := by decide
  have hpath : functionTypeArgument.path = chars "a.b" := by decide
  have hfound : functionTypeArgument.found = [] := by decide
  refine ⟨htext, hpath, ?_, ?_⟩
  · obtain ⟨sc, hdone, hstored, -⟩ := functionTypeArgument.convertPrettyFunction_eq fun _ => 0
    rw [hfound] at hstored
    rw [htext] at hdone
    exact ⟨sc, hdone, hstored⟩
  · rw [Signature.converted_iff_found, hfound, hpath]
    decide

end Log
end CoherentDB
