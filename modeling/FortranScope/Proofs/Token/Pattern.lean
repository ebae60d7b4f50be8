import FortranScope.Token.Lexeme
import Mathlib.Data.List.Basic

/-!
# Patterns

A `Pattern` matches some beginning of a text.  Where it can match in several ways these are in an
order: a longer repetition comes before a shorter one, and what is tried first comes first.
`Pattern.rests` gives what each match leaves of the text, the preferred one first, and
`Pattern.match?` what the preferred match leaves.  What follows a match does not matter for it:
with the text after it cut off, the pattern still prefers the same one.
-/

namespace FortranScope

/-- A pattern of characters: nothing at all, one character of a class, one pattern after another,
one pattern or else another, or a pattern repeated as often as possible. -/
inductive Pattern where
  | nothing
  | one (p : Char → Bool)
  | seq (first second : Pattern)
  | either (first second : Pattern)
  | many (repeated : Pattern)

namespace Pattern

/-! ## Matches -/

/-- What the matches leave of a text, from the preferred one to the last that is tried.  A
repetition that takes nothing is not made. -/
def rests : Pattern → List Char → List (List Char)
  | nothing, s => [s]
  | one _, [] => []
  | one p, c :: s => if p c then [s] else []
  | seq first second, s => (first.rests s).flatMap second.rests
  | either first second, s => first.rests s ++ second.rests s
  | many repeated, s =>
    (repeated.rests s).flatMap
      (fun rest => if rest.length < s.length then (many repeated).rests rest else []) ++ [s]
termination_by p s => (p, s.length)

/-- What the preferred match leaves of a text, if there is a match. -/
def match? (p : Pattern) (s : List Char) : Option (List Char) := (p.rests s).head?

/-- A given character. -/
def char (c : Char) : Pattern := one (· = c)

/-- A pattern that may be missing. -/
def optional (p : Pattern) : Pattern := either p nothing

/-- One character of the class or more. -/
def run (p : Char → Bool) : Pattern := seq (one p) (many (one p))

/-- A given text. -/
def literal : List Char → Pattern
  | [] => nothing
  | c :: s => seq (char c) (literal s)

section

variable {p : Char → Bool} {a b : Pattern} {c : Char} {s t u v : List Char}

@[simp]
theorem rests_nothing (s : List Char) :
  nothing.rests s = [s]
  := by
  rw [rests]

@[simp]
theorem rests_one_nil (p : Char → Bool) :
  (one p).rests [] = []
  := by
  rw [rests]

@[simp]
theorem rests_one_cons (p : Char → Bool) (c : Char) (s : List Char) :
  (one p).rests (c :: s) = if p c then [s] else []
  := by
  rw [rests]

@[simp]
theorem rests_seq (a b : Pattern) (s : List Char) :
  (seq a b).rests s = (a.rests s).flatMap b.rests
  := by
  rw [rests]

@[simp]
theorem rests_either (a b : Pattern) (s : List Char) :
  (either a b).rests s = a.rests s ++ b.rests s
  := by
  rw [rests]

/-- A repetition goes on as long as something is matched, and may end at once. -/
theorem rests_many (a : Pattern) (s : List Char) :
  (many a).rests s
    = (a.rests s).flatMap (fun t => if t.length < s.length then (many a).rests t else []) ++ [s]
  := by
  rw [rests]

/-- A character before a pattern is matched first. -/
theorem rests_seq_one_cons (p : Char → Bool) (b : Pattern) (c : Char) (s : List Char) :
  (seq (one p) b).rests (c :: s) = if p c then b.rests s else []
  := by
  rw [rests, rests]
  split <;> simp

/-- A character before a pattern is not matched at the end. -/
theorem rests_seq_one_nil (p : Char → Bool) (b : Pattern) :
  (seq (one p) b).rests [] = []
  := by
  rw [rests, rests, List.flatMap_nil]

/-- No match leaves more than there was. -/
theorem length_le_of_mem_rests (h : t ∈ a.rests s) :
  t.length ≤ s.length
  := by
  induction a generalizing s t with
  | nothing =>
    rw [rests] at h
    obtain rfl := List.mem_singleton.mp h
    apply Nat.le_refl
  | one p =>
    cases s with
    | nil =>
      rw [rests] at h
      contradiction
    | cons c s =>
      rw [rests] at h
      split at h
      · rw [List.mem_singleton.mp h]
        apply Nat.le_succ
      · contradiction
  | seq a b iha ihb =>
    rw [rests] at h
    obtain ⟨r, hr, ht⟩ := List.mem_flatMap.mp h
    apply Nat.le_trans (ihb ht) (iha hr)
  | either a b iha ihb =>
    rw [rests] at h
    rcases List.mem_append.mp h with ha | hb
    · apply iha ha
    · apply ihb hb
  | many a ih =>
    induction hn : s.length using Nat.strongRecOn generalizing s t with
    | ind n ihn =>
      rw [rests_many] at h
      rcases List.mem_append.mp h with hmore | hself
      · obtain ⟨r, -, ht⟩ := List.mem_flatMap.mp hmore
        split at ht
        · next hlt =>
          rw [hn] at hlt
          apply Nat.le_trans (ihn r.length hlt ht rfl) (Nat.le_of_lt hlt)
        · contradiction
      · obtain rfl := List.mem_singleton.mp hself
        apply Nat.le_of_eq hn

/-! ## The end of a match -/

/-- Of the matches of `f` after those in `l`, the ones that leave all of `v` come after those in `l`
that do. -/
theorem filter_flatMap {f : List Char → List (List Char)} (n : Nat)
    (hf : ∀ t, ∀ r ∈ f t, r.length ≤ t.length) (l : List (List Char)) :
  (l.flatMap f).filter (n ≤ ·.length)
    = (l.filter (n ≤ ·.length)).flatMap fun t => (f t).filter (n ≤ ·.length)
  := by
  induction l with
  | nil => rfl
  | cons t l ih =>
    rw [List.flatMap_cons, List.filter_append, ih, List.filter_cons]
    split
    · rw [List.flatMap_cons]
    · next ht =>
      have hnone : (f t).filter (n ≤ ·.length) = [] := by
        rw [List.filter_eq_nil_iff]
        intro r hr
        have hle := hf t r hr
        simp at ht ⊢
        omega
      rw [hnone, List.nil_append]

/-- The matches that leave all of `v` are the matches without `v`. -/
theorem filter_rests_append (a : Pattern) (u v : List Char) :
  (a.rests (u ++ v)).filter (v.length ≤ ·.length) = (a.rests u).map (· ++ v)
  := by
  induction a generalizing u with
  | nothing => simp
  | one p =>
    cases u with
    | nil =>
      cases v with
      | nil => simp
      | cons c v =>
        simp only [List.nil_append, rests_one_nil, rests_one_cons, List.map_nil]
        split <;> simp
    | cons c u =>
      simp only [List.cons_append, rests_one_cons]
      split <;> simp
  | seq a b iha ihb =>
    simp only [rests_seq]
    rw [filter_flatMap v.length fun t r hr => length_le_of_mem_rests hr, iha, List.flatMap_map,
      List.map_flatMap]
    simp only [ihb]
  | either a b iha ihb =>
    simp only [rests_either, List.filter_append, iha, ihb, List.map_append]
  | many a ih =>
    induction hn : u.length using Nat.strongRecOn generalizing u with
    | ind n ihn =>
      have hstep (t : List Char) (r : List Char)
          (hr : r ∈ if t.length < (u ++ v).length then (many a).rests t else []) :
          r.length ≤ t.length := by
        split at hr
        · apply length_le_of_mem_rests hr
        · contradiction
      have hself : [u ++ v].filter (v.length ≤ ·.length) = [u ++ v] := by simp
      rw [rests_many, rests_many, List.filter_append, List.map_append, hself,
        filter_flatMap v.length hstep, ih, List.flatMap_map, List.map_flatMap, List.map_singleton]
      congr 1
      apply List.flatMap_congr
      intro t _
      simp only [List.length_append, Nat.add_lt_add_iff_right]
      split
      · next hlt => apply ihn t.length (hn ▸ hlt) t rfl
      · rfl

/-- The preferred match is the same without what follows it. -/
theorem match?_of_append (h : a.match? (u ++ v) = some (t ++ v)) :
  a.match? u = some t
  := by
  have hfilter := a.filter_rests_append u v
  obtain ⟨others, hothers⟩ := List.head?_eq_some_iff.mp h
  rw [hothers, List.filter_cons_of_pos (by simp)] at hfilter
  cases hu : a.rests u with
  | nil =>
    rw [hu] at hfilter
    contradiction
  | cons r rest =>
    rw [hu, List.map_cons] at hfilter
    have hr := List.append_cancel_right (List.cons.inj hfilter).1
    rw [match?, hu, List.head?_cons, hr]

/-- Where nothing matches, nothing matches without the end of the text. -/
theorem match?_eq_none_of_append (h : a.match? (u ++ v) = none) :
  a.match? u = none
  := by
  have hfilter := a.filter_rests_append u v
  rw [List.head?_eq_none_iff.mp h, List.filter_nil] at hfilter
  rw [match?, List.map_eq_nil_iff.mp hfilter.symm, List.head?_nil]

/-- No character that the pattern matches is `c`. -/
def Avoids (c : Char) : Pattern → Prop
  | nothing => True
  | one p => p c = false
  | seq first second => first.Avoids c ∧ second.Avoids c
  | either first second => first.Avoids c ∧ second.Avoids c
  | many repeated => repeated.Avoids c

/-- A match leaves what begins with a character that the pattern avoids. -/
theorem exists_eq_append_of_avoids (ha : a.Avoids c) (h : t ∈ a.rests (u ++ c :: v)) :
  ∃ w, t = w ++ c :: v
  := by
  induction a generalizing u t with
  | nothing =>
    rw [rests_nothing] at h
    use u, List.mem_singleton.mp h
  | one p =>
    cases u with
    | nil =>
      rw [List.nil_append, rests_one_cons, ha] at h
      contradiction
    | cons d u =>
      rw [List.cons_append, rests_one_cons] at h
      split at h
      · use u, List.mem_singleton.mp h
      · contradiction
  | seq a b iha ihb =>
    rw [rests_seq] at h
    obtain ⟨r, hr, ht⟩ := List.mem_flatMap.mp h
    obtain ⟨w, rfl⟩ := iha ha.1 hr
    apply ihb ha.2 ht
  | either a b iha ihb =>
    rw [rests_either] at h
    rcases List.mem_append.mp h with hfirst | hsecond
    · apply iha ha.1 hfirst
    · apply ihb ha.2 hsecond
  | many a ih =>
    induction hn : u.length using Nat.strongRecOn generalizing u t with
    | ind n ihn =>
      rw [rests_many] at h
      rcases List.mem_append.mp h with hmore | hself
      · obtain ⟨r, hr, ht⟩ := List.mem_flatMap.mp hmore
        obtain ⟨w, rfl⟩ := ih ha hr
        split at ht
        · next hlt =>
          rw [List.length_append, List.length_append, Nat.add_lt_add_iff_right, hn] at hlt
          apply ihn w.length hlt ht rfl
        · contradiction
      · use u, List.mem_singleton.mp hself

/-- A character that the pattern avoids ends the text for it. -/
theorem match?_append_of_avoids (ha : a.Avoids c) (u v : List Char) :
  a.match? (u ++ c :: v) = (a.match? u).map (· ++ c :: v)
  := by
  have hall : (a.rests (u ++ c :: v)).filter ((c :: v).length ≤ ·.length)
      = a.rests (u ++ c :: v) := by
    rw [List.filter_eq_self]
    intro t ht
    obtain ⟨w, rfl⟩ := exists_eq_append_of_avoids ha ht
    simp
  rw [match?, ← hall, filter_rests_append, List.head?_map, match?]

/-! ## Preferred matches -/

/-- The empty pattern always matches. -/
theorem match?_nothing (s : List Char) :
  nothing.match? s = some s
  := by
  rw [match?, rests, List.head?_cons]

/-- A character before a pattern is matched, or there is no match. -/
theorem match?_seq_one_cons (p : Char → Bool) (b : Pattern) (c : Char) (s : List Char) :
  (seq (one p) b).match? (c :: s) = if p c then b.match? s else none
  := by
  rw [match?, rests_seq_one_cons]
  split <;> rfl

/-- At the end a character before a pattern is not matched. -/
theorem match?_seq_one_nil (p : Char → Bool) (b : Pattern) :
  (seq (one p) b).match? [] = none
  := by
  rw [match?, rests_seq_one_nil, List.head?_nil]

/-- The preferred match of the first pattern decides if the second can always go on. -/
theorem match?_seq (hb : ∀ t, b.match? t ≠ none) (a : Pattern) (s : List Char) :
  (seq a b).match? s = (a.match? s).bind b.match?
  := by
  rw [match?, match?, rests]
  cases ha : a.rests s with
  | nil => rfl
  | cons t others =>
    rw [List.flatMap_cons, List.head?_append, List.head?_cons, Option.bind_some, ← match?]
    cases ht : b.match? t with
    | none => exact absurd ht (hb t)
    | some r => rfl

/-- How patterns are put one after the other does not matter. -/
theorem match?_seq_assoc (a b d : Pattern) (s : List Char) :
  (seq (seq a b) d).match? s = (seq a (seq b d)).match? s
  := by
  simp only [match?, rests_seq, List.flatMap_assoc]
  congr 2
  funext t
  rw [rests_seq]

/-- What may be left out is matched if it can be. -/
theorem match?_optional (a : Pattern) (s : List Char) :
  (optional a).match? s = some ((a.match? s).getD s)
  := by
  rw [match?, optional, rests, List.head?_append, ← match?]
  cases a.match? s with
  | none =>
    rw [rests]
    rfl
  | some t => rfl

/-- At the end an optional character is left out. -/
theorem match?_seq_optional_nil (p : Char → Bool) (b : Pattern) :
  (seq (optional (one p)) b).match? [] = b.match? []
  := by
  simp [match?, optional]

/-- A character that may be missing is taken if what follows can go on after it. -/
theorem match?_seq_optional_cons (p : Char → Bool) (b : Pattern) (c : Char) (s : List Char) :
  (seq (optional (one p)) b).match? (c :: s)
    = if p c then (b.match? s).or (b.match? (c :: s)) else b.match? (c :: s)
  := by
  simp only [match?, optional, rests_seq, rests_either, rests_one_cons, rests_nothing]
  split <;> simp

/-- A repeated character is matched as often as possible first. -/
theorem rests_many_one_cons (p : Char → Bool) (c : Char) (s : List Char) :
  (many (one p)).rests (c :: s)
    = if p c then (many (one p)).rests s ++ [c :: s] else [c :: s]
  := by
  rw [rests_many, rests]
  split <;> simp

/-- At the end a repeated character is matched no time. -/
theorem rests_many_one_nil (p : Char → Bool) :
  (many (one p)).rests [] = [[]]
  := by
  rw [rests_many, rests]
  rfl

/-- A run takes all it can. -/
theorem match?_many_one (p : Char → Bool) (s : List Char) :
  (many (one p)).match? s = some (s.dropWhile p)
  := by
  induction s with
  | nil =>
    rw [match?, rests_many_one_nil]
    rfl
  | cons c s ih =>
    rw [match?, rests_many_one_cons, List.dropWhile_cons]
    split
    · rw [List.head?_append, ← match?, ih]
      rfl
    · rfl

/-- A run leaves nothing of its class to a pattern that does not begin so. -/
theorem rests_seq_many_one (hb : ∀ c s, p c → b.rests (c :: s) = []) (s : List Char) :
  (seq (many (one p)) b).rests s = b.rests (s.dropWhile p)
  := by
  induction s with
  | nil =>
    rw [rests, rests_many_one_nil, List.flatMap_singleton]
    rfl
  | cons c s ih =>
    rw [rests, rests_many_one_cons, List.dropWhile_cons]
    split
    · next hc =>
      rw [rests] at ih
      rw [List.flatMap_append, ih, List.flatMap_singleton, hb c s hc, List.append_nil]
    · rw [List.flatMap_singleton]

theorem match?_literal_nil (s : List Char) :
  (literal []).match? s = some s
  := match?_nothing s

/-- A literal text is matched character by character. -/
theorem match?_literal_cons_cons (c : Char) (w : List Char) (d : Char) (s : List Char) :
  (literal (c :: w)).match? (d :: s) = if d = c then (literal w).match? s else none
  := by
  rw [literal, char, match?_seq_one_cons]
  simp

/-- A literal text is not matched where the text ends before it. -/
theorem match?_literal_cons_nil (c : Char) (w : List Char) :
  (literal (c :: w)).match? [] = none
  := by
  apply match?_seq_one_nil

/-- A given text matches itself only. -/
theorem eq_append_of_match?_literal {w : List Char} (h : (literal w).match? s = some t) :
  s = w ++ t
  := by
  induction w generalizing s with
  | nil =>
    rw [match?_literal_nil] at h
    apply Option.some.inj h
  | cons c w ih =>
    cases s with
    | nil =>
      rw [match?_literal_cons_nil] at h
      cases h
    | cons d s =>
      rw [match?_literal_cons_cons, Option.ite_none_right_eq_some] at h
      rw [h.1, ih h.2, List.cons_append]

end

end Pattern

end FortranScope
