import Mathlib.Logic.ExistsUnique
import ClassHighlight.Proofs.Source.Candidate

/-!
# Which attributes are found

The attributes of a document are the values of the class attributes that stand in it, each of them
once and in order. One name is part of the other, and a value can contain what looks like an
attribute; but no quotation mark stands in a value, so the values lie apart, and around a cursor
there is at most one of them.
-/

namespace ClassHighlight

namespace Source

/-- A candidate is the value of the class attribute that starts at `start`: the text between its two
quotation marks. -/
structure IsValueOf (source : Source) (name : Text) (start : Nat) (c : Candidate) : Prop where
  /-- It is found as an attribute. -/
  kind : c.kind = .attribute
  /-- It stands between quotation marks. -/
  quote : c.quote = .double
  /-- Its text stands in the document. -/
  text : source.text.HasAt c.base c.text
  /-- It starts behind the first quotation mark and ends before the second one. -/
  place : ∃ sign opening, source.IsClassAttribute name start sign opening c.span.stop ∧
    c.base = opening + 1

section Values

variable {t : Text} {name name' : Text} {start start' : Nat} {c c' : Candidate}

/-- The value of an attribute is what is cut out between the quotation marks. -/
theorem isValueOf_slice {sign opening closing : Nat}
    (h : (ofText t).IsClassAttribute name start sign opening closing) :
    (ofText t).IsValueOf name start
      ⟨(ofText t).slice ⟨opening + 1, closing⟩, opening + 1, .attribute, .double⟩ := by
  have hdelimited := isDelimited_of_isAttributeAt h.isAttributeAt
  refine ⟨rfl, rfl, hdelimited.hasAt, ⟨sign, opening, ?_, rfl⟩⟩
  rw [hdelimited.span_eq]
  exact h

theorem IsValueOf.eq_slice (h : (ofText t).IsValueOf name start c) :
    c = ⟨(ofText t).slice ⟨c.base, c.span.stop⟩, c.base, .attribute, .double⟩ := by
  have hslice : (ofText t).slice ⟨c.base, c.span.stop⟩ = c.text := slice_of_hasAt h.text
  rw [hslice, ← h.kind, ← h.quote]

theorem IsValueOf.isClass (h : (ofText t).IsValueOf name start c) : name ∈ classAttributes := by
  rcases h.place with ⟨sign, opening, hat, -⟩
  exact hat.isClass

theorem IsValueOf.isAttributeAt (h : (ofText t).IsValueOf name start c) :
    IsAttributeAt (Text.bytes t) name start c.span := by
  rcases h.place with ⟨sign, opening, hat, hbase⟩
  have hbody := hat.isAttributeAt
  rw [← hbase] at hbody
  exact hbody

/-- The search finds at an index the value of the attribute that starts there. -/
theorem attributeOf?_iff_isValueOf (hclass : name ∈ classAttributes) :
    (ofText t).attributeOf? name ((Mark.ofBytes (Text.bytes t)).drop start) = some c ↔
      (ofText t).IsValueOf name start c := by
  rw [attributeOf?_eq_some_iff hclass]
  constructor
  · rintro ⟨sign, opening, closing, hat, rfl⟩
    exact isValueOf_slice hat
  · intro h
    have heq := h.eq_slice
    rcases h.place with ⟨sign, opening, hat, hbase⟩
    refine ⟨sign, opening, c.span.stop, hat, ?_⟩
    rw [← hbase]
    exact heq

/-- The attributes of a document are the values of its class attributes. -/
theorem mem_attributes_iff :
    c ∈ (ofText t).attributes ↔ ∃ name start, (ofText t).IsValueOf name start c := by
  unfold attributes
  rw [mem_attributesFrom]
  constructor
  · rintro ⟨start, name, hclass, hname⟩
    exact ⟨name, start, (attributeOf?_iff_isValueOf hclass).1 hname⟩
  · rintro ⟨name, start, h⟩
    exact ⟨start, name, h.isClass, (attributeOf?_iff_isValueOf h.isClass).2 h⟩

/-- An attribute has only one value. -/
theorem IsValueOf.unique (h : (ofText t).IsValueOf name start c)
    (h' : (ofText t).IsValueOf name start c') : c = c' := by
  have hfound := (attributeOf?_iff_isValueOf h.isClass).2 h
  rw [(attributeOf?_iff_isValueOf h.isClass).2 h'] at hfound
  exact (Option.some.inj hfound).symm

/-- The value of an attribute that starts further on is another one. -/
theorem IsValueOf.ne_of_lt (h : (ofText t).IsValueOf name start c)
    (h' : (ofText t).IsValueOf name' start' c') (hlt : start < start') : c ≠ c' := by
  rintro rfl
  have hstop := h.isAttributeAt.stop_lt h'.isAttributeAt hlt
  have hordered := h.isAttributeAt.ordered
  omega

/-- A value is that of only one attribute. -/
theorem IsValueOf.place_eq (h : (ofText t).IsValueOf name start c)
    (h' : (ofText t).IsValueOf name' start' c) : name = name' ∧ start = start' := by
  rcases Nat.lt_trichotomy start start' with hlt | rfl | hlt
  · exact absurd rfl (h.ne_of_lt h' hlt)
  · exact ⟨h.isAttributeAt.name_eq h'.isAttributeAt, rfl⟩
  · exact absurd rfl (h'.ne_of_lt h hlt)

end Values

/-! ## Around a cursor -/

section Cursor

variable {t : Text} {offset : Nat} {c c' : Candidate}

/-- No two attributes are around one cursor. -/
theorem eq_of_encloses (hc : c ∈ (ofText t).attributes) (hc' : c' ∈ (ofText t).attributes)
    (h : c.encloses offset = true) (h' : c'.encloses offset = true) : c' = c := by
  by_contra hne
  rw [Candidate.encloses, Span.encloses_iff] at h h'
  have hapart := or_swap_of_pairwise (pairwise_attributes t) hc' hc hne
  simp only [Candidate.span] at h h' hapart
  omega

/-- An attribute around a cursor is what is found there. -/
theorem candidatesAt_of_mem_attributes (hc : c ∈ (ofText t).attributes)
    (h : c.encloses offset = true) : (ofText t).candidatesAt offset = [c] := by
  unfold candidatesAt
  cases hfind : (ofText t).attributes.find? fun c => c.encloses offset with
  | none => exact absurd h (List.find?_eq_none.1 hfind c hc)
  | some found =>
    have hfound : found.encloses offset = true := by simpa using List.find?_some hfind
    rw [eq_of_encloses hc (List.mem_of_find?_eq_some hfind) h hfound]

end Cursor

/-! ## One name after the other -/

/-- No name of a class attribute overlaps with itself. -/
theorem isUnbordered_of_mem {name : Text} (h : name ∈ classAttributes) :
    Mark.IsUnbordered (Text.bytes name) := by
  revert name
  decide +kernel

theorem startsWith_of_attributeOf? {source : Source} {name : Text} {ms : List Mark} {c : Candidate}
    (h : source.attributeOf? name ms = some c) :
    Mark.startsWith (Text.bytes name) ms = true := by
  cases ms with
  | nil => cases h
  | cons m rest =>
    rw [attributeOf?] at h
    split at h
    · rename_i hstart
      rw [Bool.and_eq_true, Bool.and_eq_true] at hstart
      exact hstart.1.1
    · cases h

/-- Searching for the names one after the other, and sorting what is found by where it starts, gives
the same attributes. -/
theorem attributes_eq_mergeSort (t : Text) :
    (ofText t).attributes =
      (classAttributes.flatMap fun name =>
        (Mark.occurrences (Text.bytes name) 0 (ofText t).marks).filterMap
          ((ofText t).attributeOf? name)).mergeSort fun c c' => c.base ≤ c'.base := by
  have hsorted : (ofText t).attributes.Pairwise fun c c' => c.base < c'.base := by
    apply (pairwise_attributes t).imp
    intro c c' hlt
    exact Nat.lt_of_le_of_lt (Nat.le_add_right _ _) hlt
  rw [attributes, attributesFrom_eq_foundFrom] at hsorted ⊢
  apply foundFrom_eq_mergeSort Candidate.base hsorted
  · intro name hclass
    exact isUnbordered_of_mem hclass
  · intro name
    rfl
  · intro name ms c hc
    exact startsWith_of_attributeOf? hc

/-- The attributes of a document are the values of its class attributes, one for each of them, in
order and apart: each ends before the next one starts. So around a cursor there is at most one, and
it is what is found there. A search for one name after the other finds the same attributes. -/
theorem attributes_exact (t : Text) :
    (∀ name start sign opening closing,
      (ofText t).IsClassAttribute name start sign opening closing →
        ∃! c, c ∈ (ofText t).attributes ∧ (ofText t).IsValueOf name start c) ∧
    (∀ c ∈ (ofText t).attributes,
      ∃! place : Text × Nat, (ofText t).IsValueOf place.1 place.2 c) ∧
    (ofText t).attributes.Pairwise (fun c c' => c.span.stop < c'.base) ∧
    (∀ offset, ∀ c ∈ (ofText t).attributes, c.encloses offset = true →
      (∀ c' ∈ (ofText t).attributes, c'.encloses offset = true → c' = c) ∧
        (ofText t).candidatesAt offset = [c]) ∧
    (ofText t).attributes =
      (classAttributes.flatMap fun name =>
        (Mark.occurrences (Text.bytes name) 0 (ofText t).marks).filterMap
          ((ofText t).attributeOf? name)).mergeSort fun c c' => c.base ≤ c'.base := by
  refine ⟨?_, ?_, pairwise_attributes t, ?_, attributes_eq_mergeSort t⟩
  · intro name start sign opening closing hat
    have hvalue := isValueOf_slice hat
    refine ⟨_, ⟨mem_attributes_iff.2 ⟨name, start, hvalue⟩, hvalue⟩, ?_⟩
    rintro c ⟨-, hc⟩
    exact hc.unique hvalue
  · intro c hc
    rcases mem_attributes_iff.1 hc with ⟨name, start, hvalue⟩
    refine ⟨(name, start), hvalue, ?_⟩
    rintro ⟨name', start'⟩ hvalue'
    rcases hvalue'.place_eq hvalue with ⟨rfl, rfl⟩
    rfl
  · intro offset c hc hencloses
    refine ⟨?_, candidatesAt_of_mem_attributes hc hencloses⟩
    intro c' hc' hencloses'
    exact eq_of_encloses hc hc' hencloses hencloses'

/-- Two attributes with blanks around one equals sign, next to an attribute with a longer name. -/
theorem attributes_exact_behind_longer_name :
    (ofText "data-class=\"x\" className = \"a\" class=\"b\"".toList).attributes =
        [⟨['a'], 28, .attribute, .double⟩, ⟨['b'], 38, .attribute, .double⟩] ∧
      (ofText "data-class=\"x\" className = \"a\" class=\"b\"".toList).candidatesAt 29 =
        [⟨['a'], 28, .attribute, .double⟩] ∧
      ∃ name start, ∃! c,
        c ∈ (ofText "data-class=\"x\" className = \"a\" class=\"b\"".toList).attributes ∧
        (ofText "data-class=\"x\" className = \"a\" class=\"b\"".toList).IsValueOf name start c := by
  have hattributes : (ofText "data-class=\"x\" className = \"a\" class=\"b\"".toList).attributes =
      [⟨['a'], 28, .attribute, .double⟩, ⟨['b'], 38, .attribute, .double⟩] := by
    decide +kernel
  have hin : ⟨['a'], 28, .attribute, .double⟩ ∈
      (ofText "data-class=\"x\" className = \"a\" class=\"b\"".toList).attributes := by
    rw [hattributes]
    exact List.mem_cons_self
  rcases attributes_exact "data-class=\"x\" className = \"a\" class=\"b\"".toList with
    ⟨hvalue, hplace, -, hcursor, -⟩
  refine ⟨hattributes, (hcursor 29 _ hin (by decide)).2, ?_⟩
  rcases hplace _ hin with ⟨⟨name, start⟩, hvalueOf, -⟩
  rcases hvalueOf.place with ⟨sign, opening, hat, -⟩
  exact ⟨name, start, hvalue name start sign opening _ hat⟩

end Source

end ClassHighlight
