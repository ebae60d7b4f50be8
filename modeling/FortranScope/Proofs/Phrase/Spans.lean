import FortranScope.Proofs.Phrase.Soundness
import FortranScope.Proofs.Token.Stretch

/-!
# The spans of phrases

A phrase consists of names and of other phrases, its parts, which are written one after another
with operators, parentheses, commas and signs around them.  However the span of a phrase is put
together, it reaches from the first one of the tokens that spell the phrase to the last one.  So
in a source the parts of a phrase take up stretches of it that follow one another.
-/

namespace FortranScope.Phrase

variable {file : String} {e p : Phrase} {ts us : List Token}

/-! ## Parts -/

/-- The names and the values of arguments, as they are written. -/
def ArgList.parts : ArgList → List (Name ⊕ Phrase)
  | .nil => []
  | .cons keyword value rest => keyword.toList.map .inl ++ .inr value :: rest.parts

/-- The names and the phrases that a phrase directly consists of, as they are written. -/
def parts : Phrase → List (Name ⊕ Phrase)
  | designator name => [.inl name]
  | component base name => [.inr base, .inl name]
  | reference callee args _ => .inl callee :: args.parts
  | parentheses inner _ => [.inr inner]
  | unary _ operand _ => [.inr operand]
  | binary _ left right => [.inr left, .inr right]
  | _ => []

/-- Where a name or a phrase is written. -/
def partSpan : Name ⊕ Phrase → Span
  | .inl name => name.span
  | .inr p => p.span

/-- `p` is the phrase `e`, or a part of one of its nodes. -/
inductive Node (e : Phrase) : Phrase → Prop
  | root : Node e e
  | part {p q : Phrase} (hp : Node e p) (hq : .inr q ∈ p.parts) : Node e q

/-! ## The tokens of parts -/

/-- The tokens `ts` spell the name or the phrase. -/
def PartSpelled : Name ⊕ Phrase → List Token → Prop
  | .inl name, ts =>
    ∃ word, ts = [word] ∧ word.kind = .identifier ∧ name = Name.ofSpelling word.value word.span
  | .inr p, ts => p.Spelled ts

/-- Some of the tokens `ts` spell the names and phrases, one after another. -/
def PartsSpelled : List (Name ⊕ Phrase) → List Token → Prop
  | [], _ => True
  | part :: rest, ts =>
    ∃ before us after, ts = before ++ (us ++ after) ∧ PartSpelled part us ∧ PartsSpelled rest after

/-- Parts are still spelled after more tokens in front. -/
theorem PartsSpelled.append_left {parts : List (Name ⊕ Phrase)} (h : PartsSpelled parts ts)
    (us : List Token) :
  PartsSpelled parts (us ++ ts)
  := by
  cases parts with
  | nil => trivial
  | cons part rest =>
    obtain ⟨before, vs, after, rfl, hpart, hrest⟩ := h
    exact ⟨us ++ before, vs, after, by rw [List.append_assoc], hpart, hrest⟩

/-- Parts are still spelled after more tokens at the end. -/
theorem PartsSpelled.append_right {parts : List (Name ⊕ Phrase)} (h : PartsSpelled parts ts)
    (us : List Token) :
  PartsSpelled parts (ts ++ us)
  := by
  induction parts generalizing ts with
  | nil => trivial
  | cons part rest ih =>
    obtain ⟨before, vs, after, rfl, hpart, hrest⟩ := h
    exact ⟨before, vs, after ++ us, by simp only [List.append_assoc], hpart, ih hrest⟩

/-- The keyword of an argument is a part if there is one. -/
theorem KeywordSpelled.parts {keyword : Option Name} {ks : List Token}
    (h : KeywordSpelled keyword ks) {parts : List (Name ⊕ Phrase)}
    (hparts : PartsSpelled parts us) :
  PartsSpelled (keyword.toList.map .inl ++ parts) (ks ++ us)
  := by
  cases keyword with
  | none =>
    obtain rfl := h
    exact hparts
  | some keyword =>
    obtain ⟨word, sign, rfl, hkind, -, hname⟩ := h
    exact ⟨[], [word], sign :: us, rfl, ⟨word, rfl, hkind, hname⟩, hparts.append_left [sign]⟩

theorem ArgList.Spelled.parts (args : ArgList) {ts : List Token} (h : args.Spelled ts) :
  PartsSpelled args.parts ts
  := by
  cases args with
  | nil => trivial
  | cons keyword value rest =>
    obtain ⟨ks, us, vs, rfl, hks, hus, hrest⟩ := h
    apply hks.parts
    refine ⟨[], us, vs, rfl, hus, ?_⟩
    rcases hrest with ⟨rfl, -⟩ | ⟨comma, ws, rfl, -, hws⟩
    · trivial
    · exact (hws.parts rest).append_left [comma]

/-- The tokens of a phrase are those of its parts, with some around them. -/
theorem Spelled.parts (h : e.Spelled ts) :
  PartsSpelled e.parts ts
  := by
  cases e with
  | integer | real | character | logical => trivial
  | designator name =>
    obtain ⟨word, rfl, hkind, hname⟩ := word_of_spelled_designator h
    exact ⟨[], [word], [], rfl, ⟨word, rfl, hkind, hname⟩, trivial⟩
  | component base name =>
    obtain ⟨us, percent, word, rfl, hus, -, hkind, hname⟩ := h
    refine ⟨[], us, [percent, word], rfl, hus, ?_⟩
    exact ⟨[percent], [word], [], rfl, ⟨word, rfl, hkind, hname⟩, trivial⟩
  | reference callee args span =>
    obtain ⟨word, opening, us, closing, rfl, hkind, hname, -, hus, -⟩ := h
    refine ⟨[], [word], opening :: (us ++ [closing]), rfl, ⟨word, rfl, hkind, hname⟩, ?_⟩
    exact ((hus.parts args).append_right [closing]).append_left [opening]
  | parentheses inner span =>
    obtain ⟨opening, us, closing, rfl, -, hus, -⟩ := h
    exact ⟨[opening], us, [closing], rfl, hus, trivial⟩
  | unary operator operand span =>
    obtain ⟨t, us, rfl, -, hus, -⟩ := h
    exact ⟨[t], us, [], by simp, hus, trivial⟩
  | binary operator left right =>
    obtain ⟨us, t, vs, rfl, hus, -, hvs⟩ := h
    exact ⟨[], us, t :: vs, rfl, hus, [t], vs, [], by simp, hvs, trivial⟩

/-- Every part is spelled by some of the tokens that stand together. -/
theorem PartsSpelled.exists_of_mem {parts : List (Name ⊕ Phrase)} (h : PartsSpelled parts ts)
    {part : Name ⊕ Phrase} (hpart : part ∈ parts) :
  ∃ us, us <:+: ts ∧ PartSpelled part us
  := by
  induction parts generalizing ts with
  | nil => contradiction
  | cons first rest ih =>
    obtain ⟨before, us, after, rfl, hfirst, hrest⟩ := h
    rcases List.mem_cons.mp hpart with rfl | hpart
    · use us, List.infix_append' before us after
    · obtain ⟨vs, hvs, hpart⟩ := ih hrest hpart
      use vs
      refine ⟨hvs.trans ?_, hpart⟩
      rw [← List.append_assoc]
      exact (List.suffix_append _ _).isInfix

/-- The tokens of a node follow one another among those of the whole phrase. -/
theorem Node.spelled (hp : e.Node p) (h : e.Spelled ts) :
  ∃ us, us <:+: ts ∧ p.Spelled us
  := by
  induction hp with
  | root => exact ⟨ts, List.infix_rfl, h⟩
  | part _ hq ih =>
    obtain ⟨us, hus, hp⟩ := ih
    obtain ⟨vs, hvs, hq⟩ := hp.parts.exists_of_mem hq
    exact ⟨vs, hvs.trans hus, hq⟩

/-! ## The tokens under a span -/

/-- A literal spans its token. -/
theorem span_of_literal? {t : Token} (h : literal? t = some (some e)) :
  e.span = t.span
  := by
  rcases cases_of_literal? h with ⟨-, n, -, rfl⟩ | ⟨-, rfl⟩ | ⟨-, rfl⟩ | ⟨-, rfl⟩ | ⟨-, rfl⟩
  all_goals rfl

/-- The span of a phrase reaches from its first token to its last one. -/
theorem Spelled.spans (e : Phrase) {ts : List Token} (h : e.Spelled ts)
    (hfile : ∀ t ∈ ts, t.span.file = file) :
  Spans file ts e.span
  := by
  cases e with
  | integer | real | character | logical | designator =>
    obtain ⟨t, rfl, ht⟩ := h
    refine ⟨t, t, rfl, rfl, ?_⟩
    rw [span_of_literal? ht, ← hfile t List.mem_cons_self]
  | component base name =>
    -- from the first token of the base to the name
    obtain ⟨us, percent, word, rfl, hus, -, -, rfl⟩ := h
    obtain ⟨first, last, hfirst, -, hspan⟩ :=
      hus.spans base fun t ht => hfile t (List.mem_append_left _ ht)
    refine ⟨first, word, ?_, by simp, ?_⟩
    · rw [List.head?_append, hfirst, Option.some_or]
    · rw [span, hspan]
      rfl
  | reference callee args _ =>
    obtain ⟨word, opening, us, closing, rfl, -, rfl, -, -, -, rfl⟩ := h
    refine ⟨word, closing, rfl, ?_, ?_⟩
    · rw [← List.cons_append, ← List.cons_append, List.getLast?_concat]
    · rw [span, Span.through, Name.span_ofSpelling, hfile word List.mem_cons_self]
  | parentheses inner _ =>
    obtain ⟨opening, us, closing, rfl, -, -, -, rfl⟩ := h
    refine ⟨opening, closing, rfl, ?_, ?_⟩
    · rw [← List.cons_append, List.getLast?_concat]
    · rw [span, Span.through, hfile opening List.mem_cons_self]
  | unary _ operand _ =>
    obtain ⟨t, us, rfl, -, hus, rfl⟩ := h
    obtain ⟨_, last, -, hlast, hspan⟩ :=
      hus.spans operand fun u hu => hfile u (List.mem_cons_of_mem _ hu)
    refine ⟨t, last, rfl, ?_, ?_⟩
    · rw [List.getLast?_cons, hlast, Option.getD_some]
    · rw [span, Span.through, hspan, hfile t List.mem_cons_self]
  | binary _ left right =>
    -- from the first token of the left operand to the last one of the right
    obtain ⟨us, t, vs, rfl, hus, -, hvs⟩ := h
    obtain ⟨hleftFile, hrightFile⟩ := List.forall_mem_append.mp hfile
    obtain ⟨first, _, hfirst, -, hleft⟩ := hus.spans left hleftFile
    obtain ⟨_, last, -, hlast, hright⟩ :=
      hvs.spans right (List.forall_mem_cons.mp hrightFile).2
    refine ⟨first, last, ?_, ?_, ?_⟩
    · rw [List.head?_append, hfirst, Option.some_or]
    · rw [List.getLast?_append, List.getLast?_cons, hlast, Option.getD_some, Option.some_or]
    · rw [span, hleft, hright]
      rfl

/-- A name or a phrase spans its tokens. -/
theorem PartSpelled.spans {part : Name ⊕ Phrase} (h : PartSpelled part ts)
    (hfile : ∀ t ∈ ts, t.span.file = file) :
  Spans file ts (partSpan part)
  := by
  cases part with
  | inl name =>
    obtain ⟨word, rfl, -, rfl⟩ := h
    refine ⟨word, word, rfl, rfl, ?_⟩
    rw [partSpan, Name.span_ofSpelling, ← hfile word List.mem_cons_self]
  | inr p => exact Spelled.spans p h hfile

/-! ## The stretches of parts -/

/-- Parts that are written one after another take up stretches that follow one another. -/
theorem PartsSpelled.ordered {parts : List (Name ⊕ Phrase)} {source : List Char}
    (h : PartsSpelled parts ts) (hts : Placed file source ts) :
  (parts.map partSpan).Pairwise fun span next => span.stop ≤ next.start
  := by
  induction parts generalizing ts with
  | nil => exact List.Pairwise.nil
  | cons part rest ih =>
    obtain ⟨before, us, after, rfl, hpart, hrest⟩ := h
    have hfile (t : Token) (ht : t ∈ before ++ (us ++ after)) : t.span.file = file :=
      (hts.inPlace t ht).file_eq
    have hback : Placed file source (us ++ after) :=
      hts.mono (List.suffix_append _ _).isInfix
    have hspan : Spans file us (partSpan part) :=
      hpart.spans fun t ht => hfile t (by simp [ht])
    apply List.Pairwise.cons _ (ih hrest (hback.mono (List.suffix_append _ _).isInfix))
    intro next hnext
    obtain ⟨part', hmem, rfl⟩ := List.mem_map.mp hnext
    obtain ⟨vs, hvs, hpart'⟩ := hrest.exists_of_mem hmem
    have hspan' : Spans file vs (partSpan part') :=
      hpart'.spans fun t ht => hfile t (by simp [hvs.subset ht])
    exact hback.stop_le_start hspan hvs hspan'

/-- The span of every node of a phrase that is read from tokens of one file reaches from the first
token of the node to the last one, and names stand where their words do.  If the tokens are those
of a source, then the names and phrases that a node directly consists of take up stretches of the
source that follow one another inside that of the node, and no stretch begins or ends with a
blank. -/
theorem spans_of_ofTokens {eof : Token}
    (hts : ∀ t ∈ ts, t.kind ≠ .eof ∧ t.span.file = file) (heof : eof.kind = .eof)
    (h : ofTokens (ts ++ [eof]) = .ok e) :
  (∀ p, e.Node p → ∃ us, us <:+: ts ∧ p.Spelled us ∧ Spans file us p.span
      ∧ ∀ name, .inl name ∈ p.parts →
        ∃ t ∈ us, t.kind = .identifier ∧ name = Name.ofSpelling t.value t.span)
    ∧ ∀ source, tokenize source file = .ok (ts ++ [eof]) → ∀ p, e.Node p →
      (∀ part ∈ p.parts, p.span.Contains (partSpan part))
      ∧ (p.parts.map partSpan).Pairwise (fun span next => span.stop ≤ next.start)
      ∧ ∀ span ∈ p.span :: p.parts.map partSpan, span.Tight source.toList
  := by
  have hspelled := (spelled_of_ofTokens (fun t ht => (hts t ht).1) heof h).1
  have hfile {us : List Token} (hus : us <:+: ts) (t : Token) (ht : t ∈ us) :
      t.span.file = file := (hts t (hus.subset ht)).2
  constructor
  · intro p hp
    obtain ⟨us, hus, hspelledUs⟩ := hp.spelled hspelled
    refine ⟨us, hus, hspelledUs, Spelled.spans p hspelledUs (hfile hus), ?_⟩
    intro name hname
    obtain ⟨vs, hvs, word, rfl, hkind, heq⟩ := hspelledUs.parts.exists_of_mem hname
    exact ⟨word, hvs.subset List.mem_cons_self, hkind, heq⟩
  · intro source hsource p hp
    obtain ⟨us, hus, hspelledUs⟩ := hp.spelled hspelled
    have hplaced := (placed_of_tokenize hsource).mono hus
    have hspan := Spelled.spans p hspelledUs (hfile hus)
    have hpart (part : Name ⊕ Phrase) (hmem : part ∈ p.parts) :
        ∃ vs, vs <:+: us ∧ Spans file vs (partSpan part) := by
      obtain ⟨vs, hvs, hspelledVs⟩ := hspelledUs.parts.exists_of_mem hmem
      exact ⟨vs, hvs, hspelledVs.spans (hfile (hvs.trans hus))⟩
    refine ⟨?_, hspelledUs.parts.ordered hplaced, ?_⟩
    · intro part hmem
      obtain ⟨vs, hvs, hspan'⟩ := hpart part hmem
      exact hplaced.contains hspan hvs hspan'
    · rw [List.forall_mem_cons]
      refine ⟨hplaced.tight hspan, ?_⟩
      intro span' hmap
      obtain ⟨part, hmem, rfl⟩ := List.mem_map.mp hmap
      obtain ⟨vs, hvs, hspan'⟩ := hpart part hmem
      exact (hplaced.mono hvs).tight hspan'

/-- The tokens of ` f( n = 2 , x%k )*y `. -/
def nestedTokens : List Token :=
  [⟨.identifier, "f", ⟨"a.f90", 1, 2⟩⟩, ⟨.openParen, "(", ⟨"a.f90", 2, 3⟩⟩,
    ⟨.identifier, "n", ⟨"a.f90", 4, 5⟩⟩, ⟨.assignment, "=", ⟨"a.f90", 6, 7⟩⟩,
    ⟨.integer, "2", ⟨"a.f90", 8, 9⟩⟩, ⟨.comma, ",", ⟨"a.f90", 10, 11⟩⟩,
    ⟨.identifier, "x", ⟨"a.f90", 12, 13⟩⟩, ⟨.percent, "%", ⟨"a.f90", 13, 14⟩⟩,
    ⟨.identifier, "k", ⟨"a.f90", 14, 15⟩⟩, ⟨.closeParen, ")", ⟨"a.f90", 16, 17⟩⟩,
    ⟨.star, "*", ⟨"a.f90", 17, 18⟩⟩, ⟨.identifier, "y", ⟨"a.f90", 18, 19⟩⟩]

/-- The phrase that they spell. -/
def nested : Phrase :=
  .binary (.intrinsic .multiply)
    (.reference ⟨"f", ⟨"a.f90", 1, 2⟩⟩
      (.cons (some ⟨"n", ⟨"a.f90", 4, 5⟩⟩) (.integer 2 none ⟨"a.f90", 8, 9⟩)
        (.cons none
          (.component (.designator ⟨"x", ⟨"a.f90", 12, 13⟩⟩) ⟨"k", ⟨"a.f90", 14, 15⟩⟩) .nil))
      ⟨"a.f90", 1, 17⟩)
    (.designator ⟨"y", ⟨"a.f90", 18, 19⟩⟩)

/-- In the tokens of ` f( n = 2 , x%k )*y ` every node spans what it is written as, without the
blanks around it. -/
theorem spans_of_ofTokens_nested :
  let file := "a.f90"
  let eof := Token.ending file 20
  tokenize " f( n = 2 , x%k )*y " file = .ok (nestedTokens ++ [eof])
    ∧ (∀ t ∈ nestedTokens, t.kind ≠ .eof ∧ t.span.file = file) ∧ eof.kind = .eof
    ∧ ofTokens (nestedTokens ++ [eof]) = .ok nested
    ∧ (∀ p, nested.Node p → ∃ us, us <:+: nestedTokens ∧ p.Spelled us ∧ Spans file us p.span
      ∧ ∀ name, .inl name ∈ p.parts →
        ∃ t ∈ us, t.kind = .identifier ∧ name = Name.ofSpelling t.value t.span)
    ∧ ∀ source, tokenize source file = .ok (nestedTokens ++ [eof]) → ∀ p, nested.Node p →
      (∀ part ∈ p.parts, p.span.Contains (partSpan part))
      ∧ (p.parts.map partSpan).Pairwise (fun span next => span.stop ≤ next.start)
      ∧ ∀ span ∈ p.span :: p.parts.map partSpan, span.Tight source.toList
  := by
  intro file eof
  have hsource : tokenize " f( n = 2 , x%k )*y " file = .ok (nestedTokens ++ [eof]) := by
    decide +kernel
  have hts : ∀ t ∈ nestedTokens, t.kind ≠ .eof ∧ t.span.file = file := by decide +kernel
  have hparsed : ofTokens (nestedTokens ++ [eof]) = .ok nested := by decide +kernel
  exact ⟨hsource, hts, rfl, hparsed, spans_of_ofTokens hts rfl hparsed⟩

end FortranScope.Phrase
