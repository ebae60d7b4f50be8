import FortranScope.Proofs.Phrase.Soundness
import FortranScope.Proofs.Token.Legibility

/-!
# Legible phrases

A phrase that is spelled by legible tokens has names in small letters and real literals that can
be written without their kinds.  Every phrase that is read from a source is of this sort.
-/

namespace FortranScope.Phrase

mutual

/-- The names of the phrase are in small letters, and its real literals can be written without
their kinds. -/
def Legible : Phrase → Prop
  | integer _ _ _ => True
  | real digits _ _ => IsReal digits.toList
  | character _ _ => True
  | logical _ _ => True
  | designator name => IsName name.text.toList
  | component base name => base.Legible ∧ IsName name.text.toList
  | reference callee args _ => IsName callee.text.toList ∧ args.Legible
  | parentheses inner _ => inner.Legible
  | unary _ operand _ => operand.Legible
  | binary _ left right => left.Legible ∧ right.Legible

/-- The keywords are names in small letters and the values are legible. -/
def ArgList.Legible : ArgList → Prop
  | .nil => True
  | .cons keyword value rest =>
    (∀ name ∈ keyword, IsName name.text.toList) ∧ value.Legible ∧ rest.Legible

end

/-- A legible word is the name that it spells. -/
theorem isName_ofSpelling {t : Token} (h : t.Legible) (hkind : t.kind = .identifier) :
  IsName (Name.ofSpelling t.value t.span).text.toList
  := by
  have hname := h.name hkind
  rw [Name.text_ofSpelling, hname.foldCase_eq]
  apply hname

/-- A literal of a legible token is legible. -/
theorem legible_of_literal? {t : Token} {e : Phrase} (h : t.Legible)
    (he : literal? t = some (some e)) :
  e.Legible
  := by
  rcases cases_of_literal? he with
    ⟨-, n, -, rfl⟩ | ⟨hkind, rfl⟩ | ⟨-, rfl⟩ | ⟨-, rfl⟩ | ⟨hkind, rfl⟩
  · trivial
  · apply h.real hkind
  · trivial
  · trivial
  · apply isName_ofSpelling h hkind

/-- A keyword of legible tokens is a name in small letters. -/
theorem KeywordSpelled.isName {keyword : Option Name} {ts : List Token}
    (h : KeywordSpelled keyword ts) (hts : ∀ t ∈ ts, t.Legible) :
  ∀ name ∈ keyword, IsName name.text.toList
  := by
  cases keyword with
  | none =>
    intro name hname
    cases hname
  | some keyword =>
    obtain ⟨word, sign, rfl, hkind, -, rfl⟩ := h
    rintro _ ⟨⟩
    apply isName_ofSpelling (hts word List.mem_cons_self) hkind

mutual

/-- What legible tokens spell is legible. -/
theorem Spelled.legible (e : Phrase) {ts : List Token} (h : e.Spelled ts)
    (hts : ∀ t ∈ ts, t.Legible) :
  e.Legible
  := by
  match e with
  | integer _ _ _ | real _ _ _ | character _ _ | logical _ _ | designator _ =>
    obtain ⟨t, rfl, ht⟩ := h
    apply legible_of_literal? (hts t List.mem_cons_self) ht
  | component base name =>
    obtain ⟨us, percent, word, rfl, hus, -, hkind, rfl⟩ := h
    obtain ⟨hbase, hrest⟩ := List.forall_mem_append.mp hts
    constructor
    · apply hus.legible base hbase
    · apply isName_ofSpelling (hrest word (by simp)) hkind
  | reference callee args _ =>
    obtain ⟨word, opening, us, closing, rfl, hkind, rfl, -, hus, -⟩ := h
    constructor
    · apply isName_ofSpelling (hts word (by simp)) hkind
    · apply hus.legible args
      intro t ht
      apply hts t (by simp [ht])
  | parentheses inner _ =>
    obtain ⟨opening, us, closing, rfl, -, hus, -⟩ := h
    apply hus.legible inner
    intro t ht
    apply hts t (by simp [ht])
  | unary _ operand _ =>
    obtain ⟨t, us, rfl, -, hus, -⟩ := h
    apply hus.legible operand (List.forall_mem_cons.mp hts).2
  | binary _ left right =>
    obtain ⟨us, t, vs, rfl, hus, -, hvs⟩ := h
    obtain ⟨hleft, hright⟩ := List.forall_mem_append.mp hts
    exact ⟨hus.legible left hleft, hvs.legible right (List.forall_mem_cons.mp hright).2⟩

theorem ArgList.Spelled.legible (args : ArgList) {ts : List Token} (h : args.Spelled ts)
    (hts : ∀ t ∈ ts, t.Legible) :
  args.Legible
  := by
  match args with
  | .nil => trivial
  | .cons keyword value rest =>
    obtain ⟨ks, us, vs, rfl, hks, hus, hrest⟩ := h
    obtain ⟨hkeyword, hothers⟩ := List.forall_mem_append.mp hts
    obtain ⟨hvalue, hothers⟩ := List.forall_mem_append.mp hothers
    refine ⟨hks.isName hkeyword, hus.legible value hvalue, ?_⟩
    rcases hrest with ⟨rfl, -⟩ | ⟨comma, ws, rfl, -, hws⟩
    · trivial
    · apply hws.legible rest (List.forall_mem_cons.mp hothers).2

end

/-- What is read from a source is legible. -/
theorem legible_of_ofSource {source file : String} {e : Phrase}
    (h : ofSource source file = .ok e) :
  e.Legible
  := by
  rw [ofSource] at h
  split at h
  · cases h
  · next ts hts =>
    obtain ⟨found, eof, rfl, heof, hfound⟩ := exists_of_tokenize hts
    obtain ⟨hspelled, -⟩ := spelled_of_ofTokens (fun t ht => (hfound t ht).1) heof h
    apply hspelled.legible
    intro t ht
    apply (hfound t ht).2

end FortranScope.Phrase
