import ClassHighlight.ClassString.TokenPass
import ClassHighlight.Proofs.ClassString.Token

/-!
# One pass finds the tokens

A pass over a class list reads each character with the depth and the quote that a scan of the list
has there, for a look back tells the same escapes as the scan. Either it stands between two tokens,
where the scan is as at the start of a list, or it goes on with a token that has started. With each
character the tokens found so far and those that are still to come are the tokens of the list. So no
cut fails, and in the end all tokens are found.
-/

namespace ClassHighlight

/-- The byte of a narrow character tells its quote, and no quote is a wide one. -/
theorem Quote.ofNarrowChar?_eq (c : Char) : ofNarrowChar? c = ofChar? c := by
  have hquote : ∀ q : Quote, q.char.toNat < 0x100 ∧ q.byte.toNat = q.char.toNat := by
    intro q
    cases q <;> decide
  unfold ofNarrowChar?
  split
  · rename_i hnarrow
    have hbyte : c.toUInt8.toNat = c.toNat := by
      show c.val.toUInt8.toNat = _
      rw [UInt32.toNat_toUInt8]
      exact Nat.mod_eq_of_lt hnarrow
    apply ofByte?_eq_ofChar?
    intro q
    rw [← UInt8.toNat_inj, ← Char.toNat_inj, hbyte, (hquote q).2]
  · rename_i hwide
    symm
    rw [ofChar?, List.find?_eq_none]
    intro q _ heq
    rw [beq_iff_eq] at heq
    exact hwide (heq ▸ (hquote q).1)

namespace Token

variable {offset start : Nat} {word rest : Text} {n : Nesting} {c : Char}

/-! ## A token that has started -/

/-- The tokens from one on that has started with a word and goes on in the rest of a list. -/
def continuing (start : Nat) (word : Text) (n : Nesting) (rest : Text) : List Token :=
  ⟨word ++ (splitWord n rest).1, start⟩ ::
    splitFrom (start + Text.byteLength (word ++ (splitWord n rest).1)) (splitWord n rest).2

/-- It ends with the list. -/
theorem continuing_nil (start : Nat) (word : Text) (n : Nesting) :
    continuing start word n [] = [⟨word, start⟩] := by
  rw [continuing, splitWord, splitFrom, List.append_nil]

/-- It ends at a blank outside brackets. -/
theorem continuing_of_blank (hout : n.isOutside = true) (hblank : isBlank c = true) :
    continuing start word n (c :: rest) =
      ⟨word, start⟩ :: splitFrom (start + Text.byteLength word + c.utf8Size) rest := by
  rw [continuing, splitWord, if_pos (by rw [hout, hblank]; rfl)]
  simp only
  rw [List.append_nil, splitFrom, if_pos hblank]

/-- Any other character goes to its word. -/
theorem continuing_of_not_blank (h : ¬ (n.isOutside = true ∧ isBlank c = true)) :
    continuing start word n (c :: rest) = continuing start (word ++ [c]) (n.step c) rest := by
  rw [continuing, continuing, splitWord, if_neg (by rwa [Bool.and_eq_true])]
  simp only
  rw [List.append_assoc, List.singleton_append]

theorem splitFrom_of_blank (hblank : isBlank c = true) :
    splitFrom offset (c :: rest) = splitFrom (offset + c.utf8Size) rest := by
  rw [splitFrom, if_pos hblank]

/-- A token starts with a character that is no blank. -/
theorem splitFrom_of_not_blank (hblank : ¬ isBlank c = true) :
    splitFrom offset (c :: rest) = continuing offset [c] (Nesting.start.step c) rest := by
  rw [splitFrom, if_neg hblank]
  rfl

namespace Pass

/-! ## Characters -/

section Readers

variable (p : Pass) (q : Quote) (escaped : Bool) (offset : Nat) (c : Char)

@[simp] theorem tokens_readQuoted : (p.readQuoted q escaped c).tokens = p.tokens := by
  unfold readQuoted
  split <;> rfl

@[simp] theorem start?_readQuoted : (p.readQuoted q escaped c).start? = p.start? := by
  unfold readQuoted
  split <;> rfl

@[simp] theorem tokens_readInside : (p.readInside escaped c).tokens = p.tokens := by
  unfold readInside
  repeat' split
  all_goals rfl

@[simp] theorem start?_readInside : (p.readInside escaped c).start? = p.start? := by
  unfold readInside
  repeat' split
  all_goals rfl

@[simp] theorem tokens_readWord : (p.readWord escaped offset c).tokens = p.tokens := by
  unfold readWord
  simp only
  split <;> rfl

@[simp] theorem start?_readWord :
    (p.readWord escaped offset c).start? = p.start?.or (some offset) := by
  unfold readWord
  simp only
  split <;> rfl

end Readers

/-- A pass has the depth and the quote of a scan. -/
structure Follows (p : Pass) (n : Nesting) : Prop where
  /-- As many brackets are open. -/
  depth_eq : p.depth = n.depth
  /-- The same quote is open. -/
  quote_eq : p.quote = n.quote

section Read

variable {p : Pass} {list : Text}

theorem Follows.readQuoted (h : p.Follows n) {q : Quote} (hq : n.quote = some q) (c : Char) :
    (p.readQuoted q n.escaped c).Follows (n.step c) := by
  obtain ⟨hdepth, hquote⟩ := h
  unfold Pass.readQuoted Nesting.step
  simp only [hq]
  split
  · exact ⟨hdepth, rfl⟩
  · exact ⟨hdepth, hquote.trans hq⟩

theorem Follows.readInside (h : p.Follows n) (hnone : n.quote = none)
    (hin : n.isOutside = false) (c : Char) : (p.readInside n.escaped c).Follows (n.step c) := by
  obtain ⟨hdepth, hquote⟩ := h
  unfold Pass.readInside Nesting.step
  simp only [hnone, Quote.ofNarrowChar?_eq]
  cases n.escaped with
  | true =>
    simp only [Bool.not_true, Bool.and_false, Bool.false_eq_true, if_false, if_true]
    exact ⟨hdepth, hquote.trans hnone⟩
  | false =>
    simp only [Bool.not_false, Bool.and_true, if_true, Bool.false_eq_true, if_false, hin]
    split
    · exact ⟨congrArg (· + 1) hdepth, hquote.trans hnone⟩
    · split
      · exact ⟨congrArg (· - 1) hdepth, hquote.trans hnone⟩
      · exact ⟨hdepth, rfl⟩

theorem Follows.readWord (h : p.Follows n) (hnone : n.quote = none)
    (hout : n.isOutside = true) (offset : Nat) (c : Char) :
    (p.readWord n.escaped offset c).Follows (n.step c) := by
  obtain ⟨hdepth, hquote⟩ := h
  have hzero := Nesting.isOutside_iff.1 hout
  unfold Pass.readWord Nesting.step
  simp only [hnone, hout]
  cases n.escaped with
  | true =>
    simp only [Bool.not_true, Bool.and_false, Bool.false_eq_true, if_false, if_true]
    exact ⟨hdepth, hquote.trans hnone⟩
  | false =>
    simp only [Bool.not_false, Bool.and_true, if_true, Bool.false_eq_true, if_false]
    split
    · exact ⟨by rw [hzero], hquote.trans hnone⟩
    · -- a closing bracket outside brackets is an ordinary character
      split
      · exact ⟨by rw [hdepth, hzero], hquote.trans hnone⟩
      · exact ⟨hdepth, hquote.trans hnone⟩

/-- At a blank outside brackets the token at hand is cut out. -/
theorem read?_of_blank (h : p.Follows n) (hquotes : n.QuotesInside) (hout : n.isOutside = true)
    (hblank : isBlank c = true) (list : Text) (offset : Nat) :
    p.read? list offset c = p.cut? list offset := by
  have hzero := Nesting.isOutside_iff.1 hout
  have hdepth := h.depth_eq
  have hnone := h.quote_eq
  rw [hquotes hzero] at hnone
  unfold read?
  simp only [hnone]
  rw [if_neg (by omega), if_pos hblank]

/-- Any other character is read as the scan reads it. The tokens found so far stay, and a token goes
on, or outside brackets it starts. -/
theorem exists_read? (h : p.Follows n) (hquotes : n.QuotesInside)
    (hescaped : n.escaped = isEscaped (Text.bytes list) offset)
    (hplain : ¬ (n.isOutside = true ∧ isBlank c = true)) :
    ∃ next, p.read? list offset c = some next ∧ next.Follows (n.step c) ∧
      next.tokens = p.tokens ∧
      next.start? = if n.isOutside then p.start?.or (some offset) else p.start? := by
  rw [read?, ← hescaped, h.quote_eq]
  cases hquote : n.quote with
  | some q =>
    rw [hquotes.isInside hquote]
    exact ⟨_, rfl, h.readQuoted hquote c, tokens_readQuoted p q _ c, start?_readQuoted p q _ c⟩
  | none =>
    cases hout : n.isOutside with
    | false =>
      have hpos := Nesting.isInside_iff.1 hout
      rw [← h.depth_eq] at hpos
      simp only [if_pos hpos]
      exact ⟨_, rfl, h.readInside hquote hout c, tokens_readInside p _ c, start?_readInside p _ c⟩
    | true =>
      have hzero := Nesting.isOutside_iff.1 hout
      rw [← h.depth_eq] at hzero
      have hword : ¬ isBlank c = true := fun hblank => hplain ⟨hout, hblank⟩
      simp only [hzero, Nat.lt_irrefl, if_false, if_neg hword]
      exact ⟨_, rfl, h.readWord hquote hout offset c, tokens_readWord p _ offset c,
        start?_readWord p _ offset c⟩

end Read

/-! ## Places in a list -/

/-- What a pass has found in front of a place and what is still to come are the tokens of the list. -/
inductive Finds (list : Text) (p : Pass) (before rest : Text) : Prop
  /-- Between two tokens the scan is as at the start of a list. -/
  | between (hnone : p.start? = none) (hfresh : Nesting.start.after before = .start)
      (htokens : split list = p.tokens ++ splitFrom (Text.byteLength before) rest)
  /-- A token has started, and some word of it was read. -/
  | within {front word : Text} (hstart : p.start? = some (Text.byteLength front))
      (hbefore : before = front ++ word) (htokens : split list = p.tokens ++
        continuing (Text.byteLength front) word (Nesting.start.after before) rest)

/-- A pass stands at a place of a list. -/
structure IsAt (p : Pass) (list before rest : Text) : Prop where
  /-- The place divides the list. -/
  whole : list = before ++ rest
  /-- The pass reads the list as the scan does. -/
  follows : p.Follows (Nesting.start.after before)
  /-- No token is lost. -/
  finds : p.Finds list before rest

theorem initial_isAt (list : Text) : initial.IsAt list [] list where
  whole := rfl
  follows := ⟨rfl, rfl⟩
  finds := .between rfl rfl rfl

section IsAt

variable {p : Pass} {list before : Text}

theorem cut?_of_none (h : p.start? = none) (list : Text) (stop : Nat) :
    p.cut? list stop = some p := by
  rw [cut?, h]

/-- The cuts do not fail, and a token is cut out as it was read. -/
theorem cut?_of_some {front word : Text} (hlist : list = front ++ word ++ rest)
    (hstart : p.start? = some (Text.byteLength front)) :
    p.cut? list (Text.byteLength (front ++ word)) = some
      { p with tokens := p.tokens ++ [⟨word, Text.byteLength front⟩], start? := none } := by
  have hplace : list.HasAt (Text.byteLength front) word := ⟨front, rest, hlist, rfl⟩
  rw [cut?, hstart, Text.byteLength_append]
  simp only
  rw [hplace.slice?]
  rfl

/-- A blank outside brackets ends the token at hand, if there is one. -/
theorem IsAt.exists_cut? (h : p.IsAt list before (c :: rest))
    (hout : (Nesting.start.after before).isOutside = true) (hblank : isBlank c = true) :
    ∃ next, p.cut? list (Text.byteLength before) = some next ∧
      next.IsAt list (before ++ [c]) rest := by
  have hwhole : list = before ++ [c] ++ rest := by
    rw [h.whole, List.append_assoc, List.singleton_append]
  have hquotes := Nesting.quotesInside_after_start before
  have hfresh : Nesting.start.after (before ++ [c]) = .start := by
    rw [Nesting.after_concat, Nesting.step_blank hquotes hout hblank]
  have hlength : Text.byteLength (before ++ [c]) = Text.byteLength before + c.utf8Size := by simp
  obtain ⟨hdepth, hquote⟩ := h.follows
  rw [Nesting.isOutside_iff.1 hout] at hdepth
  rw [hquotes (Nesting.isOutside_iff.1 hout)] at hquote
  rcases h.finds with ⟨hnone, -, htokens⟩ | ⟨hstart, rfl, htokens⟩
  · refine ⟨p, cut?_of_none hnone _ _, hwhole, ?_, .between hnone hfresh ?_⟩
    · rw [hfresh]
      exact ⟨hdepth, hquote⟩
    · rw [htokens, splitFrom_of_blank hblank, hlength]
  · refine ⟨_, cut?_of_some h.whole hstart, hwhole, ?_, .between rfl hfresh ?_⟩
    · rw [hfresh]
      exact ⟨hdepth, hquote⟩
    · rw [htokens, continuing_of_blank hout hblank, hlength, Text.byteLength_append,
        List.append_assoc, List.singleton_append]

/-- With each character a pass goes on to the place behind it. -/
theorem IsAt.exists_read? (h : p.IsAt list before (c :: rest)) :
    ∃ next, p.read? list (Text.byteLength before) c = some next ∧
      next.IsAt list (before ++ [c]) rest := by
  by_cases hblank : (Nesting.start.after before).isOutside = true ∧ isBlank c = true
  · rw [read?_of_blank h.follows (Nesting.quotesInside_after_start before) hblank.1 hblank.2]
    exact h.exists_cut? hblank.1 hblank.2
  · obtain ⟨next, hread, hfollows, htokens', hstart'⟩ := Pass.exists_read? h.follows
      (Nesting.quotesInside_after_start before) (Nesting.escaped_after_front h.whole) hblank
    rw [← Nesting.after_concat] at hfollows
    refine ⟨next, hread, ?_, hfollows, ?_⟩
    · rw [h.whole, List.append_assoc, List.singleton_append]
    · rcases h.finds with ⟨hnone, hfresh, htokens⟩ | ⟨hstart, hbefore, htokens⟩
      · -- a token starts with the character
        rw [hfresh] at hblank
        have hfirst : ¬ isBlank c = true := fun hc => hblank ⟨rfl, hc⟩
        rw [hfresh, hnone] at hstart'
        refine .within hstart' rfl ?_
        rw [htokens', htokens, splitFrom_of_not_blank hfirst, Nesting.after_concat, hfresh]
      · rw [hstart, Option.some_or, ite_self] at hstart'
        refine .within hstart' (by rw [hbefore, List.append_assoc]) ?_
        rw [htokens', htokens, continuing_of_not_blank hblank, Nesting.after_concat]

/-- A pass comes to the end of its list. -/
theorem IsAt.exists_readFrom? (h : p.IsAt list before rest) :
    ∃ last, readFrom? list p (Text.byteLength before) rest = some last ∧ last.IsAt list list [] := by
  induction rest generalizing p before with
  | nil =>
    have hwhole := h.whole
    rw [List.append_nil] at hwhole
    subst hwhole
    exact ⟨p, rfl, h⟩
  | cons c rest ih =>
    obtain ⟨next, hread, hnext⟩ := h.exists_read?
    obtain ⟨last, hlast, hend⟩ := ih hnext
    refine ⟨last, ?_, hend⟩
    have hlength : Text.byteLength before + c.utf8Size = Text.byteLength (before ++ [c]) := by simp
    rw [readFrom?, hread, Option.bind_some, hlength, hlast]

/-- There all tokens are found, the last one of which may end with the list. -/
theorem IsAt.tokens_eq (h : p.IsAt list list []) :
    (p.cut? list (Text.byteLength list)).map tokens = some (split list) := by
  rcases h.finds with ⟨hnone, -, htokens⟩ | ⟨hstart, hlist, htokens⟩
  · rw [cut?_of_none hnone, htokens, splitFrom, List.append_nil]
    rfl
  · have hcut := cut?_of_some (hlist.trans (List.append_nil _).symm) hstart
    rw [← hlist] at hcut
    rw [hcut, htokens, continuing_nil]
    rfl

end IsAt

/-- One pass over a class list finds its tokens. -/
theorem split?_eq (list : Text) : split? list = some (split list) := by
  obtain ⟨last, hread, hend⟩ := (initial_isAt list).exists_readFrom?
  rw [Text.byteLength_nil] at hread
  rw [split?, hread, Option.bind_some, hend.tokens_eq]

end Pass

end Token

end ClassHighlight
