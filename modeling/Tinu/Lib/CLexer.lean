import Mathlib.Data.List.Basic

/-!
# The tokens of C text

A text is read letter by letter, into words, string literals, single letters of punctuation and
preprocessor lines; comments are dropped.  Text with escapes, spliced lines or character constants
is refused.

* `run_append` — a text is read part by part;
* `lexes_word`, `lexes_str`, `lexes_line` — a word, a string literal and a comment;
* `LexesBefore.intercalate` — parts with a separator between them;
* `isWord_of_mem_tokens` — a token that is a word has the letters of one.
-/

set_option autoImplicit false

namespace CLexer

inductive Token where
  | word (text : List Char)
  | str (text : List Char)
  | punct (c : Char)
  | directive (text : List Char)
  deriving DecidableEq, Repr

/-- Where the reader is, with what it has of the token that it is in. -/
inductive Mode where
  | blank
  | word (text : List Char)
  | str (text : List Char)
  | slash
  | line
  | block
  | star
  | directive (text : List Char)
  | bad
  deriving DecidableEq, Repr

/-- The letters of identifiers and numbers. -/
def isWordChar (c : Char) : Bool := c.isAlphanum || c = '_'

/-- The letters that a string literal takes as they are. -/
def isStrChar (c : Char) : Bool := ! (c = Char.ofNat 34 || c = Char.ofNat 92 || c = '\n')

/-- The letters of a line that does not go on in the next one. -/
def isLineChar (c : Char) : Bool := ! (c = Char.ofNat 92 || c = '\n')

def isWord (w : List Char) : Bool := w.all isWordChar

/-- A letter outside of all tokens. -/
def start (c : Char) : Mode × List Token :=
  if isWordChar c then (.word [c], [])
  else if c = ' ' || c = '\t' || c = '\n' then (.blank, [])
  else if c = Char.ofNat 34 then (.str [], [])
  else if c = '/' then (.slash, [])
  else if c = '#' then (.directive [], [])
  else if c = Char.ofNat 92 || c = Char.ofNat 39 then (.bad, [])
  else (.blank, [.punct c])

/-- A letter. -/
def Mode.next : Mode → Char → Mode × List Token
  | .blank, c => start c
  | .word w, c =>
    if isWordChar c then (.word (w ++ [c]), []) else ((start c).1, .word w :: (start c).2)
  | .str s, c =>
    if isStrChar c then (.str (s ++ [c]), [])
    else if c = Char.ofNat 34 then (.blank, [.str s]) else (.bad, [])
  | .slash, c =>
    if c = '/' then (.line, [])
    else if c = '*' then (.block, []) else ((start c).1, .punct '/' :: (start c).2)
  | .line, c =>
    if isLineChar c then (.line, []) else if c = '\n' then (.blank, []) else (.bad, [])
  | .block, c => if c = '*' then (.star, []) else (.block, [])
  | .star, c => if c = '/' then (.blank, []) else if c = '*' then (.star, []) else (.block, [])
  | .directive s, c =>
    if isLineChar c then (.directive (s ++ [c]), [])
    else if c = '\n' then (.blank, [.directive s]) else (.bad, [])
  | .bad, _ => (.bad, [])

/-- A text, letter by letter. -/
def run : Mode → List Char → Mode × List Token
  | m, [] => (m, [])
  | m, c :: s => ((run (m.next c).1 s).1, (m.next c).2 ++ (run (m.next c).1 s).2)

/-- The tokens of a text. -/
def tokens (s : List Char) : Option (List Token) :=
  match (run .blank s).1 with
  | .blank => some (run .blank s).2
  | .line => some (run .blank s).2
  | .word w => some ((run .blank s).2 ++ [.word w])
  | _ => none

/-- The text has the tokens, and ends behind the last of them. -/
def Lexes (s : List Char) (ts : List Token) : Prop := run .blank s = (.blank, ts)

instance (s : List Char) (ts : List Token) : Decidable (Lexes s ts) :=
  inferInstanceAs (Decidable (run .blank s = (.blank, ts)))

/-- The text has the tokens, when no letter of a word is next. -/
def LexesBefore (s : List Char) (ts : List Token) : Prop :=
  ∀ c t ts', isWordChar c = false → Lexes (c :: t) ts' → Lexes (s ++ c :: t) (ts ++ ts')

/-! ## Part by part -/

theorem run_append : ∀ (m : Mode) (s t : List Char),
    run m (s ++ t) = ((run (run m s).1 t).1, (run m s).2 ++ (run (run m s).1 t).2)
  | m, [], t => rfl
  | m, c :: s, t => by
    rw [List.cons_append, run, run_append _ s t, run]
    exact Prod.ext rfl (List.append_assoc _ _ _).symm

theorem tokens_of_lexes {s : List Char} {ts : List Token} (h : Lexes s ts) : tokens s = some ts := by
  unfold Lexes at h
  unfold tokens
  rw [h]

theorem Lexes.append {s t : List Char} {ts us : List Token} (hs : Lexes s ts) (ht : Lexes t us) :
    Lexes (s ++ t) (ts ++ us) := by
  unfold Lexes at *
  rw [run_append, hs, ht]

theorem Lexes.nil : Lexes [] [] := rfl

theorem Lexes.flatMap {α : Type} {f : α → List Char} {g : α → List Token} :
    ∀ (xs : List α), (∀ x ∈ xs, Lexes (f x) (g x)) → Lexes (xs.flatMap f) (xs.flatMap g)
  | [], _ => Lexes.nil
  | x :: xs, h =>
    (h x List.mem_cons_self).append
      (Lexes.flatMap xs fun y hy => h y (List.mem_cons_of_mem x hy))

theorem Lexes.before {s : List Char} {ts : List Token} (h : Lexes s ts) : LexesBefore s ts :=
  fun _ _ _ _ ht => h.append ht

theorem LexesBefore.cons {s : List Char} {ts us : List Token} {c : Char} {t : List Char}
    (h : LexesBefore s ts) (hc : isWordChar c = false) (ht : Lexes (c :: t) us) :
    Lexes (s ++ c :: t) (ts ++ us) := h c t us hc ht

/-- Text before a part that may need a letter behind it. -/
theorem Lexes.append_before {s t : List Char} {ts us : List Token} (hs : Lexes s ts)
    (ht : LexesBefore t us) : LexesBefore (s ++ t) (ts ++ us) := by
  intro c u vs hc hu
  rw [List.append_assoc, List.append_assoc]
  exact hs.append (ht c u vs hc hu)

/-! ## The tokens -/

theorem run_word : ∀ (v w : List Char), isWord w = true → run (.word v) w = (.word (v ++ w), [])
  | v, [], _ => by rw [List.append_nil, run]
  | v, c :: w, h => by
    obtain ⟨hc, hw⟩ := Bool.and_eq_true_iff.mp h
    have hnext : (Mode.word v).next c = (.word (v ++ [c]), []) := if_pos hc
    rw [run, hnext, run_word (v ++ [c]) w hw, List.append_assoc]
    rfl

/-- **A word**, up to a letter that is in none. -/
theorem lexes_word {w : List Char} (hne : w ≠ []) (hw : isWord w = true) :
    LexesBefore w [.word w] := by
  intro c t ts hc ht
  cases w with
  | nil => exact absurd rfl hne
  | cons a w =>
    obtain ⟨ha, hrest⟩ := Bool.and_eq_true_iff.mp hw
    have hfirst : run .blank (a :: w) = (.word (a :: w), []) := by
      have hnext : Mode.blank.next a = (.word [a], []) := if_pos ha
      rw [run, hnext, run_word [a] w hrest]
      rfl
    -- the letter behind the word is read as one at the start of a token
    have hend : (Mode.word (a :: w)).next c = ((start c).1, .word (a :: w) :: (start c).2) :=
      if_neg (Bool.eq_false_iff.mp hc)
    unfold Lexes at *
    rw [run] at ht
    obtain ⟨hmode, hemit⟩ := Prod.mk.inj ht
    have hrun : run (.word (a :: w)) (c :: t) = (.blank, .word (a :: w) :: ts) := by
      rw [run, hend]
      exact Prod.ext hmode (congrArg (Token.word (a :: w) :: ·) hemit)
    rw [run_append, hfirst, hrun]
    rfl

theorem run_str : ∀ (u s : List Char), s.all isStrChar = true →
    run (.str u) (s ++ [Char.ofNat 34]) = (.blank, [.str (u ++ s)])
  | u, [], _ => by rw [List.append_nil]; rfl
  | u, c :: s, h => by
    obtain ⟨hc, hs⟩ := Bool.and_eq_true_iff.mp h
    have hnext : (Mode.str u).next c = (.str (u ++ [c]), []) := if_pos hc
    rw [List.cons_append, run, hnext, run_str (u ++ [c]) s hs, List.append_assoc]
    rfl

/-- **A string literal.** -/
theorem lexes_str {s : List Char} (h : s.all isStrChar = true) :
    Lexes (Char.ofNat 34 :: (s ++ [Char.ofNat 34])) [.str s] := by
  have hnext : Mode.blank.next (Char.ofNat 34) = (.str [], []) := by decide
  unfold Lexes
  rw [run, hnext, run_str [] s h]
  rfl

theorem run_line : ∀ s : List Char, s.all isLineChar = true →
    run .line (s ++ ['\n']) = (.blank, [])
  | [], _ => by decide
  | c :: s, h => by
    obtain ⟨hc, hs⟩ := Bool.and_eq_true_iff.mp h
    have hnext : Mode.line.next c = (.line, []) := if_pos hc
    rw [List.cons_append, run, hnext, run_line s hs]
    rfl

/-- **A comment** to the end of the line. -/
theorem lexes_line {s : List Char} (h : s.all isLineChar = true) :
    Lexes ('/' :: '/' :: (s ++ ['\n'])) [] := by
  have hfirst : Mode.blank.next '/' = (.slash, []) := by decide
  have hsecond : Mode.slash.next '/' = (.line, []) := by decide
  unfold Lexes
  rw [run, hfirst, run, hsecond, run_line s h]
  rfl

/-- **Parts with a separator between them.** -/
theorem LexesBefore.intercalate {α : Type} {f : α → List Char} {g : α → List Token} {a : Char}
    {sep : List Char} {seps : List Token} (ha : isWordChar a = false)
    (hsep : Lexes (a :: sep) seps) :
    ∀ xs : List α, (∀ x ∈ xs, LexesBefore (f x) (g x)) →
      LexesBefore (List.intercalate (a :: sep) (xs.map f)) (List.intercalate seps (xs.map g))
  | [], _ => Lexes.nil.before
  | [x], h => by
    have hx := h x List.mem_cons_self
    simpa using hx
  | x :: y :: xs, h => by
    have hx := h x List.mem_cons_self
    have hrest := LexesBefore.intercalate ha hsep (y :: xs) fun z hz =>
      h z (List.mem_cons_of_mem x hz)
    rw [List.map_cons, List.map_cons, List.map_cons, List.map_cons, List.intercalate_cons_cons,
      List.intercalate_cons_cons, ← List.map_cons, ← List.map_cons]
    intro c t ts hc ht
    have hmore := hsep.append (hrest c t ts hc ht)
    have hall := hx.cons ha hmore
    rw [List.append_assoc, List.append_assoc, List.append_assoc, List.append_assoc]
    exact hall

/-! ## Words -/

/-- What the reader has, or has read, of words are letters of words. -/
def Token.Ok : Token → Prop
  | .word w => isWord w = true
  | _ => True

def Mode.Ok : Mode → Prop
  | .word w => isWord w = true
  | _ => True

theorem start_ok (c : Char) : (start c).1.Ok ∧ ∀ t ∈ (start c).2, t.Ok := by
  unfold start
  by_cases hc : isWordChar c = true
  · rw [if_pos hc]
    refine ⟨?_, fun t ht => by cases ht⟩
    exact Bool.and_eq_true_iff.mpr ⟨hc, rfl⟩
  · rw [if_neg hc]
    split_ifs <;> exact ⟨trivial, by simp [Token.Ok]⟩

theorem next_ok {m : Mode} (hm : m.Ok) (c : Char) :
    (m.next c).1.Ok ∧ ∀ t ∈ (m.next c).2, t.Ok := by
  cases m with
  | blank => exact start_ok c
  | word w =>
    rw [Mode.next]
    by_cases hc : isWordChar c = true
    · rw [if_pos hc]
      refine ⟨?_, fun t ht => by cases ht⟩
      change (w ++ [c]).all isWordChar = true
      rw [List.all_append, Bool.and_eq_true]
      exact ⟨hm, Bool.and_eq_true_iff.mpr ⟨hc, rfl⟩⟩
    · rw [if_neg hc]
      refine ⟨(start_ok c).1, fun t ht => ?_⟩
      rcases List.mem_cons.mp ht with rfl | ht
      · exact hm
      · exact (start_ok c).2 t ht
  | slash =>
    rw [Mode.next]
    split_ifs
    · exact ⟨trivial, fun t ht => by cases ht⟩
    · exact ⟨trivial, fun t ht => by cases ht⟩
    · refine ⟨(start_ok c).1, fun t ht => ?_⟩
      rcases List.mem_cons.mp ht with rfl | ht
      · trivial
      · exact (start_ok c).2 t ht
  | bad => exact ⟨trivial, fun t ht => by cases ht⟩
  | str s | line | block | star | directive s =>
    rw [Mode.next]
    split_ifs <;> exact ⟨trivial, by simp [Token.Ok]⟩

theorem run_ok : ∀ {m : Mode}, m.Ok → ∀ s : List Char,
    (run m s).1.Ok ∧ ∀ t ∈ (run m s).2, t.Ok
  | m, hm, [] => ⟨hm, fun t ht => by cases ht⟩
  | m, hm, c :: s => by
    obtain ⟨hnext, hemit⟩ := next_ok hm c
    obtain ⟨hlast, hmore⟩ := run_ok hnext s
    refine ⟨hlast, fun t ht => ?_⟩
    rcases List.mem_append.mp ht with ht | ht
    · exact hemit t ht
    · exact hmore t ht

/-- **A token that is a word has the letters of one.** -/
theorem isWord_of_mem_tokens {s : List Char} {ts : List Token} (h : tokens s = some ts)
    {w : List Char} (hw : Token.word w ∈ ts) : isWord w = true := by
  obtain ⟨hlast, hmore⟩ := run_ok (m := .blank) trivial s
  unfold tokens at h
  split at h
  · obtain rfl := Option.some.inj h
    exact hmore _ hw
  · obtain rfl := Option.some.inj h
    exact hmore _ hw
  · next v hv =>
    obtain rfl := Option.some.inj h
    rcases List.mem_append.mp hw with hw | hw
    · exact hmore _ hw
    · rw [List.mem_singleton, Token.word.injEq] at hw
      rw [hv] at hlast
      rw [hw]
      exact hlast
  · cases h

end CLexer
