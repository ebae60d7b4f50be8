import FortranScope.Proofs.Token.Lines

/-!
# Stretches of a source

Some tokens that follow one another take up a stretch of their source, from where the first one
begins to where the last one ends.  A stretch of fewer of these tokens lies inside, and since only
what is skipped begins or ends with a blank, the stretch itself does not.
-/

namespace FortranScope

open Lexeme

/-! ## The ends of lexemes -/

namespace Lexeme

variable {shape : Shape} {p : Pattern} {c : Char} {s text : List Char}

/-- A pattern that avoids a character matches no text in which it is. -/
theorem Pattern.notMem_of_avoids (ha : p.Avoids c) (h : p.match? s = some []) :
  c ∉ s
  := by
  intro hc
  obtain ⟨u, v, rfl⟩ := List.append_of_mem hc
  rw [Pattern.match?_append_of_avoids ha] at h
  obtain ⟨w, -, hw⟩ := Option.map_eq_some_iff.mp h
  simp at hw

/-- The text is not empty, and neither its first nor its last character is blank. -/
def Tight (text : List Char) : Prop :=
  ∃ c d, text.head? = some c ∧ text.getLast? = some d ∧ Text.isBlank c = false
    ∧ Text.isBlank d = false

/-- A text without blanks is tight. -/
theorem Tight.of_forall (hne : text ≠ []) (h : ∀ c ∈ text, Text.isBlank c = false) :
  Tight text
  := ⟨text.head hne, text.getLast hne, List.head?_eq_some_head hne,
    List.getLast?_eq_some_getLast hne, h _ (List.head_mem hne), h _ (List.getLast_mem hne)⟩

/-- Only what is skipped begins or ends with a blank. -/
theorem tight_of_best? (hne : text ≠ []) (h : best? text = some (shape, []))
    (hskipped : shape ≠ .skipped) :
  Tight text
  := by
  by_cases hquoted : shape = .quoted
  · obtain ⟨q, s, rfl⟩ := List.exists_cons_of_ne_nil hne
    rw [hquoted] at h
    obtain ⟨hq, hquote⟩ := quote_unquoted_of_best? h
    have hblank : Text.isBlank q = false := by
      rcases hq with rfl | rfl <;> decide
    refine ⟨q, q, rfl, ?_, hblank, hblank⟩
    rw [hquote, Constant.quote, List.getLast?_concat]
  · obtain ⟨p, hp, hmatch⟩ := exists_pattern_of_best? h
    apply Tight.of_forall hne
    intro c hc
    by_contra hblank
    have havoids := avoids_of_isBlank (eq_true_of_ne_false hblank) hp hskipped hquoted
    exact Pattern.notMem_of_avoids havoids hmatch hc

/-- A text that begins and ends with tight texts is tight. -/
theorem Tight.of_begin_of_end {u v : List Char} (hu : Tight u) (hv : Tight v)
    (hbegin : u <+: text) (hend : v <:+ text) :
  Tight text
  := by
  obtain ⟨c, -, hhead, -, hc, -⟩ := hu
  obtain ⟨-, d, -, hlast, -, hd⟩ := hv
  obtain ⟨after, rfl⟩ := hbegin
  refine ⟨c, d, ?_, ?_, hc, hd⟩
  · rw [List.head?_append, hhead, Option.some_or]
  · obtain ⟨before, hbefore⟩ := hend
    rw [← hbefore, List.getLast?_append, hlast, Option.some_or]

end Lexeme

/-! ## Stretches of text -/

/-- Of two beginnings of a text the one with fewer bytes is a beginning of the other one. -/
theorem prefix_of_byteLength_le {u v s : List Char} (hu : u <+: s) (hv : v <+: s)
    (h : byteLength u ≤ byteLength v) :
  u <+: v
  := by
  rcases List.prefix_or_prefix_of_prefix hu hv with huv | ⟨w, rfl⟩
  · exact huv
  · rw [byteLength_append] at h
    obtain rfl : w = [] := by
      apply eq_nil_of_byteLength_eq_zero
      omega
    exact ⟨[], by simp⟩

/-- In the source, the text under the span begins and ends with characters that are no blanks. -/
def Span.Tight (source : List Char) (span : Span) : Prop :=
  ∃ text after, Stands source 0 span.start span.stop text after ∧ Lexeme.Tight text

/-- The text from the beginning of a tight text to the end of another one is tight. -/
theorem Span.Tight.through {source : List Char} {span span' : Span} (h : span.Tight source)
    (h' : span'.Tight source) (hstart : span.start ≤ span'.start)
    (hstop : span.stop ≤ span'.stop) :
  (span.through span').Tight source
  := by
  obtain ⟨u, afterU, ⟨before, hsource, hbefore, hu⟩, htightU⟩ := h
  obtain ⟨v, afterV, ⟨before', hsource', hbefore', hv⟩, htightV⟩ := h'
  rw [List.append_assoc] at hsource hsource'
  obtain ⟨middle, rfl⟩ : before <+: before' := by
    apply prefix_of_byteLength_le ⟨_, hsource.symm⟩ ⟨_, hsource'.symm⟩
    omega
  rw [byteLength_append] at hbefore'
  have hrest : u ++ afterU = middle ++ v ++ afterV := by
    have hwhole : before ++ (u ++ afterU) = before ++ (middle ++ v ++ afterV) := by
      rw [← hsource, hsource', List.append_assoc, List.append_assoc]
    exact List.append_cancel_left hwhole
  refine ⟨middle ++ v, afterV, ⟨before, ?_, hbefore, ?_⟩, ?_⟩
  · rw [List.append_assoc, ← hrest, hsource]
  · rw [byteLength_append, Span.through]
    dsimp only
    omega
  · apply htightU.of_begin_of_end htightV
    · apply prefix_of_byteLength_le ⟨_, hrest⟩ (List.prefix_append _ _)
      rw [byteLength_append]
      omega
    · exact List.suffix_append _ _

/-! ## Stretches of tokens -/

section

variable {file : String} {source : List Char} {ts us : List Token} {t : Token}
  {span span' : Span}

/-- The span of a token is tight. -/
theorem InPlace.tight (h : InPlace file source 0 t) :
  t.span.Tight source
  := by
  obtain ⟨shape, text, after, hstands, -, hbest, -, hspells⟩ := h.spelled
  refine ⟨text, after, hstands, ?_⟩
  apply tight_of_best? _ hbest
  · rintro rfl
    exact hspells
  · rintro rfl
    obtain ⟨-, -, -, hstop⟩ := hstands
    have hnonempty := h.nonempty
    rw [byteLength_nil] at hstop
    omega

/-- The span begins where the first one of the tokens does, and ends where the last one does. -/
def Spans (file : String) (ts : List Token) (span : Span) : Prop :=
  ∃ first last, ts.head? = some first ∧ ts.getLast? = some last
    ∧ span = ⟨file, first.span.start, last.span.stop⟩

/-- The tokens stand in the source one after another. -/
structure Placed (file : String) (source : List Char) (ts : List Token) : Prop where
  inPlace : ∀ t ∈ ts, InPlace file source 0 t
  ordered : ts.Pairwise fun t next => t.span.stop ≤ next.span.start

namespace Placed

theorem mono (h : Placed file source ts) (hus : us <:+: ts) :
  Placed file source us
  where
  inPlace t ht := h.inPlace t (hus.subset ht)
  ordered := h.ordered.sublist hus.sublist

/-- Every one of the tokens lies between the first one and the last one. -/
theorem within (h : Placed file source ts) (hspan : Spans file ts span) (ht : t ∈ ts) :
  span.start ≤ t.span.start ∧ t.span.stop ≤ span.stop
  := by
  obtain ⟨first, last, hfirst, hlast, rfl⟩ := hspan
  have hnonempty := (h.inPlace t ht).nonempty
  constructor
  · obtain ⟨rest, rfl⟩ := List.head?_eq_some_iff.mp hfirst
    have hbefore := (List.pairwise_cons.mp h.ordered).1
    have hpos := (h.inPlace first List.mem_cons_self).nonempty
    rcases List.mem_cons.mp ht with rfl | ht
    · exact Nat.le_refl _
    · have hle := hbefore t ht
      dsimp only
      omega
  · obtain ⟨rest, rfl⟩ := List.getLast?_eq_some_iff.mp hlast
    have hafter := (List.pairwise_append.mp h.ordered).2.2
    have hpos := (h.inPlace last (by simp)).nonempty
    rcases List.mem_append.mp ht with ht | ht
    · have hle := hafter t ht last (List.mem_singleton_self last)
      dsimp only
      omega
    · rw [List.mem_singleton.mp ht]

/-- Fewer tokens take up a stretch inside. -/
theorem contains (h : Placed file source ts) (hspan : Spans file ts span) (hus : us <:+: ts)
    (hspan' : Spans file us span') :
  span.Contains span'
  := by
  obtain ⟨first, last, hfirst, hlast, rfl⟩ := hspan'
  refine ⟨?_, ?_, ?_⟩
  · obtain ⟨_, _, -, -, rfl⟩ := hspan
    rfl
  · exact (h.within hspan (hus.subset (List.mem_of_head? hfirst))).1
  · exact (h.within hspan (hus.subset (List.mem_of_getLast? hlast))).2

/-- Tokens before other ones take up a stretch before theirs. -/
theorem stop_le_start (h : Placed file source (ts ++ us)) (hspan : Spans file ts span)
    {vs : List Token} (hvs : vs <:+: us) (hspan' : Spans file vs span') :
  span.stop ≤ span'.start
  := by
  obtain ⟨_, last, -, hlast, rfl⟩ := hspan
  obtain ⟨first, _, hfirst, -, rfl⟩ := hspan'
  exact (List.pairwise_append.mp h.ordered).2.2 last (List.mem_of_getLast? hlast) first
    (hvs.subset (List.mem_of_head? hfirst))

/-- The stretch that tokens take up neither begins nor ends with a blank. -/
theorem tight (h : Placed file source ts) (hspan : Spans file ts span) :
  span.Tight source
  := by
  have hwithin {t : Token} := h.within hspan (t := t)
  obtain ⟨first, last, hfirst, hlast, rfl⟩ := hspan
  have hfirst' := List.mem_of_head? hfirst
  have hlast' := List.mem_of_getLast? hlast
  have htight : (first.span.through last.span).Tight source := by
    apply (h.inPlace first hfirst').tight.through (h.inPlace last hlast').tight
    · exact (hwithin hlast').1
    · exact (hwithin hfirst').2
  rw [Span.through, (h.inPlace first hfirst').file_eq] at htight
  exact htight

end Placed

/-- The tokens of a source before the end marker stand in it. -/
theorem placed_of_tokenize {source : String} {eof : Token}
    (h : tokenize source file = .ok (ts ++ [eof])) :
  Placed file source.toList ts
  := by
  obtain ⟨found, heq, hreads⟩ := exists_reads_of_tokenize h
  obtain ⟨rfl, -⟩ := List.append_inj' heq rfl
  exact ⟨hreads.inPlace, hreads.ordered⟩

end

end FortranScope
