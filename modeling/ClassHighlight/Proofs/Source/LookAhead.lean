import ClassHighlight.Proofs.Buffer.InPlace
import ClassHighlight.Proofs.Source.CommentMap
import ClassHighlight.Source.Basic

/-!
# How far ahead comments are decided

Whether a byte lies in a comment depends on the bytes before it, on the byte itself and on the three
behind it, for the longest opener has four bytes. Two documents that start with the same bytes have
the same comments there, up to the last three of these bytes, whatever follows in each of them: a
closer in one and none in the other, a quote, or the end.
-/

namespace ClassHighlight

/-! ## Documents that start with the same bytes -/

section Shared

variable {α : Type} {l l' : List α} {n i : Nat}

/-- Lists with the same first items have shorter starts in common too. -/
theorem take_eq_of_le (h : l.take n = l'.take n) (hi : i ≤ n) : l.take i = l'.take i := by
  have hshorter := congrArg (List.take i) h
  rw [List.take_take, List.take_take, Nat.min_eq_left hi] at hshorter
  exact hshorter

theorem getElem?_eq_of_take_eq (h : l.take n = l'.take n) (hi : i < n) : l[i]? = l'[i]? := by
  rw [← List.getElem?_take_of_lt hi, h, List.getElem?_take_of_lt hi]

/-- What follows an index is the same as far as the lists are. -/
theorem take_drop_eq_of_take_eq (h : l.take n = l'.take n) {k : Nat} (hi : i + k ≤ n) :
    (l.drop i).take k = (l'.drop i).take k := by
  rw [List.take_drop, List.take_drop, take_eq_of_le h hi]

/-- A list that ends before the shared items do is all of the other one. -/
theorem eq_of_take_eq_of_length_lt (h : l.take n = l'.take n) (hlt : l.length < n) : l = l' := by
  have hlength := congrArg List.length h
  rw [List.length_take, List.length_take] at hlength
  rw [List.take_of_length_le (by omega), List.take_of_length_le (by omega)] at h
  exact h

end Shared

section Bytes

variable {bs bs' : List UInt8} {n i : Nat}

theorem isEscaped_eq_of_take_eq (h : bs.take n = bs'.take n) (hi : i ≤ n) :
    isEscaped bs i = isEscaped bs' i := by
  unfold isEscaped
  rw [take_eq_of_le h hi]

/-- The marks of shared bytes are the same, since a mark looks back only. -/
theorem Mark.take_ofBytes_eq (h : bs.take n = bs'.take n) :
    (ofBytes bs).take n = (ofBytes bs').take n := by
  apply List.ext_getElem?
  intro i
  by_cases hi : i < n
  · have hback : ofIndex bs i = ofIndex bs' i := by
      funext b
      unfold ofIndex isEscaped leadsLineAt
      rw [take_eq_of_le h (Nat.le_of_lt hi)]
    rw [List.getElem?_take_of_lt hi, List.getElem?_take_of_lt hi, getElem?_ofBytes,
      getElem?_ofBytes, getElem?_eq_of_take_eq h hi, hback]
  · rw [List.getElem?_eq_none (by rw [List.length_take]; omega),
      List.getElem?_eq_none (by rw [List.length_take]; omega)]

/-- A tracker is in the same state if it has read the same bytes. -/
theorem openAt_eq_of_take_eq (h : bs.take n = bs'.take n) {skipped skipped' : Nat → Bool}
    (hi : i ≤ n) (hskipped : ∀ j, j < i → skipped j = skipped' j) :
    openAt bs skipped i = openAt bs' skipped' i := by
  induction i with
  | zero => rfl
  | succ i ih =>
    have hbefore : openAt bs skipped i = openAt bs' skipped' i := by
      apply ih (Nat.le_of_succ_le hi)
      intro j hj
      exact hskipped j (Nat.lt_succ_of_lt hj)
    rw [openAt, openAt, hbefore, hskipped i (Nat.lt_succ_self i), getElem?_eq_of_take_eq h hi,
      isEscaped_eq_of_take_eq h (Nat.le_of_succ_le hi)]

namespace CommentForm

/-- Four bytes decide whether a comment opens, and of which form it is. -/
theorem opener?_take (ms : List Mark) : opener? (ms.take 4) = opener? ms := by
  cases ms with
  | nil => rfl
  | cons m rest =>
    have hstarts : ∀ pattern : List UInt8, pattern.length ≤ 4 →
        Mark.startsWith pattern (m :: rest.take 3) = Mark.startsWith pattern (m :: rest) := by
      intro pattern hlength
      have htake : (m :: rest.take 3).take pattern.length = (m :: rest).take pattern.length := by
        rw [← List.take_succ_cons, List.take_take, Nat.min_eq_left hlength]
      unfold Mark.startsWith
      rw [htake]
    rw [List.take_succ_cons, opener?, opener?, hstarts _ (by decide), hstarts _ (by decide),
      hstarts _ (by decide)]

theorem opener?_eq_of_take_eq (h : bs.take n = bs'.take n) (hi : i + 4 ≤ n) :
    opener? ((Mark.ofBytes bs).drop i) = opener? ((Mark.ofBytes bs').drop i) := by
  rw [← opener?_take ((Mark.ofBytes bs).drop i), ← opener?_take ((Mark.ofBytes bs').drop i),
    take_drop_eq_of_take_eq (Mark.take_ofBytes_eq h) hi]

theorem length_closer_le (form : CommentForm) : form.closer.length ≤ form.closerKept + 1 := by
  cases form <;> decide

/-- A closer among shared bytes is found in both documents. -/
theorem closer_prefix_of_take_eq (h : bs.take n = bs'.take n) {form : CommentForm} {k : Nat}
    (hk : k + form.closer.length ≤ n) (hcloser : form.closer <+: bs.drop k) :
    form.closer <+: bs'.drop k := by
  rw [List.prefix_iff_eq_take] at hcloser ⊢
  rw [← take_drop_eq_of_take_eq h hk]
  exact hcloser

/-- Comments of one form with the same start reach equally far among the shared bytes, closed or
not. -/
theorem EndsAt.lt_of_take_eq {form : CommentForm} {start stop stop' o : Nat}
    (hend : form.EndsAt bs start stop) (hend' : form.EndsAt bs' start stop')
    (h : bs.take n = bs'.take n) (ho : o < n) (hlt : o < stop) : o < stop' := by
  by_contra hnot
  have hle : stop' ≤ o := Nat.le_of_not_lt hnot
  have hkept := form.length_closer_le
  cases hend' with
  | inl hclosed =>
    obtain ⟨k', hfirst', hstop'⟩ := hclosed
    -- the closer of the second comment closes the first one as well
    have hcloser : form.closer <+: bs.drop k' :=
      closer_prefix_of_take_eq h.symm (by omega) hfirst'.2.1
    cases hend with
    | inl hclosed =>
      obtain ⟨k, hfirst, hstop⟩ := hclosed
      have hlater : k' < k := by omega
      exact hfirst.2.2 k' hfirst'.1 hlater hcloser
    | inr hunclosed => exact hunclosed.1 k' hfirst'.1 hcloser
  | inr hunclosed =>
    -- the second document ends among the shared bytes, so the two are the same
    obtain ⟨habsent', hstop'⟩ := hunclosed
    have hsame : bs' = bs := eq_of_take_eq_of_length_lt h.symm (by omega)
    have hend' : form.EndsAt bs start stop' := hsame ▸ Or.inr ⟨habsent', hstop'⟩
    have := hend.unique hend'
    omega

end CommentForm

end Bytes

/-! ## Comments of shared bytes -/

namespace IsCommentMap

variable {bs bs' : List UInt8} {ranges ranges' : List Span} {n o : Nat}

/-- Comments of the two documents that start at the same shared byte reach equally far among the
shared bytes. -/
theorem lt_stop_of_start_eq (h : IsCommentMap bs ranges) (h' : IsCommentMap bs' ranges')
    (hshared : bs.take n = bs'.take n) {r r' : Span} (hr : r ∈ ranges) (hr' : r' ∈ ranges')
    (hstart : r'.start = r.start) (hopener : r.start + 4 ≤ n) (ho : o < n) (hlt : o < r.stop) :
    o < r'.stop := by
  obtain ⟨-, form, length, hform, hend⟩ := h.opened r hr
  obtain ⟨-, form', length', hform', hend'⟩ := h'.opened r' hr'
  -- the same opener makes it the same form
  rw [hstart] at hform' hend'
  rw [CommentForm.opener?_eq_of_take_eq hshared hopener, hform'] at hform
  cases hform
  exact hend.lt_of_take_eq hend' hshared ho hlt

/-- Where the same comments have started, the same bytes are covered. -/
theorem coveredBy_of_starts (h : IsCommentMap bs ranges) (h' : IsCommentMap bs' ranges')
    (hshared : bs.take n = bs'.take n) (ho : o + 4 ≤ n)
    (hstarts : ∀ s, s ≤ o → s ∈ ranges.map Span.start → s ∈ ranges'.map Span.start)
    (hcovered : coveredBy ranges o = true) : coveredBy ranges' o = true := by
  obtain ⟨r, hr, hle, hlt⟩ := coveredBy_iff.1 hcovered
  obtain ⟨r', hr', hstart⟩ := List.mem_map.1 (hstarts r.start hle (List.mem_map_of_mem hr))
  have hlt' := h.lt_stop_of_start_eq h' hshared hr hr' hstart (by omega) (by omega) hlt
  exact coveredBy_iff.2 ⟨r', hr', by omega, hlt'⟩

theorem coveredBy_eq_of_starts (h : IsCommentMap bs ranges) (h' : IsCommentMap bs' ranges')
    (hshared : bs.take n = bs'.take n) (ho : o + 4 ≤ n)
    (hstarts : ∀ s, s ≤ o → (s ∈ ranges.map Span.start ↔ s ∈ ranges'.map Span.start)) :
    coveredBy ranges o = coveredBy ranges' o := by
  rw [Bool.eq_iff_iff]
  constructor
  · apply h.coveredBy_of_starts h' hshared ho
    intro s hs
    exact (hstarts s hs).1
  · apply h'.coveredBy_of_starts h hshared.symm ho
    intro s hs
    exact (hstarts s hs).2

/-- No comment of the other document reaches over the start of a comment, if the comments before it
have the same starts: it would be shared, and overlap with the other one. -/
theorem start_eq_of_covers (h : IsCommentMap bs ranges) (h' : IsCommentMap bs' ranges')
    (hshared : bs.take n = bs'.take n) (ho : o + 4 ≤ n)
    (hstarts : ∀ s, s < o → (s ∈ ranges.map Span.start ↔ s ∈ ranges'.map Span.start))
    {r r' : Span} (hr : r ∈ ranges) (hstart : r.start = o) (hr' : r' ∈ ranges')
    (hle : r'.start ≤ o) (hlt : o < r'.stop) : r'.start = o := by
  cases Nat.eq_or_lt_of_le hle with
  | inl heq => exact heq
  | inr hbefore =>
    obtain ⟨shared, hmem, hsame⟩ :=
      List.mem_map.1 ((hstarts r'.start hbefore).2 (List.mem_map_of_mem hr'))
    have hover := h'.lt_stop_of_start_eq h hshared.symm hr' hmem hsame (by omega) (by omega) hlt
    have hpositive := h.nonempty r hr
    have heq : shared = r := eq_of_apart id h.sorted hmem hr
      (Span.contains_iff.2 ⟨by simp only [id_eq]; omega, hover⟩)
      (Span.contains_iff.2 ⟨by simp only [id_eq]; omega, by simp only [id_eq]; omega⟩)
    rw [heq] at hsame
    omega

/-- A comment that starts at a shared byte starts there in the other document too, if the comments
before it have the same starts. -/
theorem start_mem_of_starts (h : IsCommentMap bs ranges) (h' : IsCommentMap bs' ranges')
    (hshared : bs.take n = bs'.take n) (ho : o + 4 ≤ n)
    (hstarts : ∀ s, s < o → (s ∈ ranges.map Span.start ↔ s ∈ ranges'.map Span.start))
    (hin : o ∈ ranges.map Span.start) : o ∈ ranges'.map Span.start := by
  obtain ⟨r, hr, hstart⟩ := List.mem_map.1 hin
  obtain ⟨hopen, form, length, hform, -⟩ := h.opened r hr
  rw [hstart] at hopen hform
  -- the tracker of the other document is outside quotes as well, and sees the same opener
  have hcovered : ∀ j, j < o → coveredBy ranges j = coveredBy ranges' j := by
    intro j hj
    apply h.coveredBy_eq_of_starts h' hshared (by omega)
    intro s hs
    exact hstarts s (by omega)
  rw [openAt_eq_of_take_eq hshared (by omega) hcovered] at hopen
  rw [CommentForm.opener?_eq_of_take_eq hshared ho] at hform
  have hlength : o < bs'.length := by
    have hmarks := Mark.length_ofBytes bs'
    by_contra hnot
    rw [List.drop_of_length_le (by omega)] at hform
    cases hform
  by_cases hin' : coveredBy ranges' o = true
  · obtain ⟨r', hr', hle, hlt⟩ := coveredBy_iff.1 hin'
    exact List.mem_map.2
      ⟨r', hr', h.start_eq_of_covers h' hshared ho hstarts hr hstart hr' hle hlt⟩
  · -- without a comment here the opener would be missed
    have hnone := h'.complete o hlength (by simpa using hin') hopen
    rw [hnone] at hform
    cases hform

/-- Comments start at the same shared bytes. -/
theorem start_mem_iff (h : IsCommentMap bs ranges) (h' : IsCommentMap bs' ranges')
    (hshared : bs.take n = bs'.take n) (ho : o + 4 ≤ n) :
    o ∈ ranges.map Span.start ↔ o ∈ ranges'.map Span.start := by
  induction o using Nat.strongRecOn with
  | ind o ih =>
    have hstarts : ∀ s, s < o → (s ∈ ranges.map Span.start ↔ s ∈ ranges'.map Span.start) := by
      intro s hs
      exact ih s hs (by omega)
    constructor
    · exact h.start_mem_of_starts h' hshared ho hstarts
    · apply h'.start_mem_of_starts h hshared.symm ho
      intro s hs
      exact (hstarts s hs).symm

/-- Comments cover the same shared bytes, but for the last three. -/
theorem coveredBy_eq (h : IsCommentMap bs ranges) (h' : IsCommentMap bs' ranges')
    (hshared : bs.take n = bs'.take n) (ho : o + 4 ≤ n) :
    coveredBy ranges o = coveredBy ranges' o := by
  apply h.coveredBy_eq_of_starts h' hshared ho
  intro s hs
  exact h.start_mem_iff h' hshared (by omega)

end IsCommentMap

/-! ## Comments and edits -/

namespace RawBuffer

/-- An edit keeps what stands before its range, also if it fails. -/
theorem exists_text_perform {op : Buffer.Operation} {start stop : Nat}
    (hrange : op.range? = some (start, stop)) (b : RawBuffer) :
    ∃ behind, ((perform op).on b).2.text = b.text.take start ++ behind := by
  have hkept : ∃ behind, b.text = b.text.take start ++ behind :=
    ⟨b.text.drop start, (List.take_append_drop start b.text).symm⟩
  have hreplaced : ∀ t, ∃ behind, (b.replaced start stop t).text = b.text.take start ++ behind := by
    intro t
    exact ⟨t ++ b.text.drop stop, List.append_assoc _ _ _⟩
  cases op with
  | insert index t =>
    cases hrange
    rw [perform, InPlace.on_bind, on_insert]
    split_ifs
    · exact hkept
    · exact hreplaced t
  | delete start stop =>
    cases hrange
    rw [perform, on_delete]
    split_ifs
    · exact hkept
    · exact hkept
    · exact hreplaced []
  | replace start stop t =>
    cases hrange
    rw [perform, on_replace]
    split_ifs
    · exact hkept
    · exact hkept
    · exact hreplaced t
  | setCursor offset => cases hrange
  | setCursorPosition p => cases hrange

end RawBuffer

namespace Source

/-- Texts that start with the same bytes have the same comments there. -/
theorem contains_eq_of_take_eq {t t' : Text} {n o : Nat}
    (h : (Text.bytes t).take n = (Text.bytes t').take n) (ho : o + 4 ≤ n) :
    (ofText t).comments.contains o = (ofText t').comments.contains o := by
  show (CommentMap.ofMarks (Mark.ofBytes (Text.bytes t))).contains o =
    (CommentMap.ofMarks (Mark.ofBytes (Text.bytes t'))).contains o
  rw [CommentMap.contains_eq, CommentMap.contains_eq]
  exact (CommentMap.isCommentMap_ranges _).coveredBy_eq (CommentMap.isCommentMap_ranges _) h ho

/-- Texts that start with the same characters start with the bytes of these. -/
theorem take_bytes_append (front behind : Text) :
    (Text.bytes (front ++ behind)).take (Text.byteLength front) = Text.bytes front := by
  rw [Text.bytes_append, ← Text.length_bytes]
  exact List.take_left

/-- Whether a byte lies in a comment is decided by the bytes up to the third one behind it: texts
that share these agree on it, however they go on. So an edit makes no difference to what lies more
than three bytes before it. -/
theorem comments_causal :
    (∀ (t t' : Text) (n : Nat), (Text.bytes t).take n = (Text.bytes t').take n →
      ∀ o, o + 4 ≤ n → (ofText t).comments.contains o = (ofText t').comments.contains o) ∧
    ∀ (b : RawBuffer) (op : Buffer.Operation) (start stop : Nat), op.range? = some (start, stop) →
      ∀ o, o + 4 ≤ Text.byteLength (b.text.take start) →
        (ofText ((RawBuffer.perform op).on b).2.text).comments.contains o =
          (ofText b.text).comments.contains o := by
  constructor
  · intro t t' n h o ho
    exact contains_eq_of_take_eq h ho
  · intro b op start stop hrange o ho
    obtain ⟨behind, htext⟩ := RawBuffer.exists_text_perform hrange b
    have hshared : (Text.bytes ((RawBuffer.perform op).on b).2.text).take
          (Text.byteLength (b.text.take start)) =
        (Text.bytes b.text).take (Text.byteLength (b.text.take start)) := by
      have hbefore := take_bytes_append (b.text.take start) (b.text.drop start)
      rw [List.take_append_drop] at hbefore
      rw [htext, take_bytes_append, hbefore]
    exact contains_eq_of_take_eq hshared ho

/-- A comment that one text closes and the other one leaves open, and an edit that makes a line
comment a block comment. -/
theorem comments_causal_unclosed :
    ((Text.bytes "é <!-- b".toList).take 9 = (Text.bytes "é <!-- b-->'c".toList).take 9 ∧
      (ofText "é <!-- b".toList).comments.contains 5 = true ∧
      (ofText "é <!-- b-->'c".toList).comments.contains 5 = true) ∧
    (Buffer.Operation.replace 9 10 "*".toList).range? = some (9, 10) ∧
      (ofText ((RawBuffer.perform (.replace 9 10 "*".toList)).on
        (.fresh "/* é */ //".toList none)).2.text).comments.contains 6 = true ∧
      (ofText "/* é */ //".toList).comments.contains 6 = true := by
  have hshared : (Text.bytes "é <!-- b".toList).take 9 =
      (Text.bytes "é <!-- b-->'c".toList).take 9 := by
    decide
  have hopen : (ofText "é <!-- b".toList).comments.contains 5 = true := by
    decide +kernel
  have hclosed : (ofText "/* é */ //".toList).comments.contains 6 = true := by
    decide +kernel
  have htexts := comments_causal.1 _ _ 9 hshared 5 (by decide)
  have hedit := comments_causal.2 (.fresh "/* é */ //".toList none) (.replace 9 10 "*".toList) 9 10
    rfl 6 (by decide)
  exact ⟨⟨hshared, hopen, htexts.symm.trans hopen⟩, rfl, hedit.trans hclosed, hclosed⟩

/-- Two bytes behind it do not decide whether a byte opens a comment. -/
example : (Text.bytes "<!--".toList).take 3 = (Text.bytes "<!-a".toList).take 3 ∧
    (ofText "<!--".toList).comments.contains 0 = true ∧
    (ofText "<!-a".toList).comments.contains 0 = false := by
  decide +kernel

end Source

end ClassHighlight
