import DdlGraph.Proofs.LockedSession
import DdlGraph.Proofs.StatementText
import Mathlib.Algebra.Order.Floor.Div

/-!
# A text in blocks

A text that is begun is shown in blocks of the same number of characters, however many bytes these
have; only the last block may be shorter. What the session keeps of this is a byte offset, found anew
for each block by counting characters. After `k` calls the session shows the first `k` blocks and the
offset is their size in bytes (`showingBlocks`), and this one equation carries the rest.

* `advance_pendingBlocks`: counting `size` characters behind the offset gives the next block;
* `step_showingBlocks`, `run_showingBlocks`: one call, and any number of calls;
* `text_eq_iff`: the calls that it takes until the whole text is shown;
* `extract_block`: the blocks as bytes, between the offsets before and after;
* `showsOnce_begin`: a text that is begun is shown once, block by block.
-/

namespace DdlGraph.Session

/-! ## Blocks -/

/-- Block number `k` of a text, in characters. -/
def block (size k : Nat) (cs : List Char) : List Char :=
  (cs.drop (k * size)).take size

/-- The number of blocks. -/
def blockCount (size : Nat) (text : String) : Nat :=
  text.length ⌈/⌉ size

/-- The blocks of a text in order. -/
def blocks (size : Nat) (text : String) : List String :=
  (List.range (blockCount size text)).map fun k => .ofList (block size k text.toList)

/-- The session after `k` calls of `nextChunk`. -/
def afterCalls (s : Session) (k : Nat) : Session :=
  s.run (.replicate k .nextChunk)

/-- The byte offset that a session keeps while it shows a text. -/
def revealed? (s : Session) : Option Nat :=
  s.pending.map (·.revealed)

/-- **A text is shown once**, in blocks of `size` characters. -/
structure ShowsOnce (begun : Session) (text : String) (size : Nat) : Prop where
  /-- What is shown after `k` calls. -/
  shown : ∀ k, (begun.afterCalls k).text = .ofList (text.toList.take (k * size))
  /-- While characters are left, the next call gives the next block. -/
  next : ∀ k, k * size < text.length → (begun.afterCalls k).nextChunk =
    .ok (some (.ofList (block size k text.toList)), begun.afterCalls (k + 1))
  /-- A block has `size` characters, or what is left, but at least one. -/
  length : ∀ k, k * size < text.length → 0 < (block size k text.toList).length ∧
    (block size k text.toList).length = min size (text.length - k * size)
  /-- The byte offset after `k` calls is the size of what is shown, and no character stands across
  it. -/
  offset : ∀ k, (begun.afterCalls k).revealed? = some (begun.afterCalls k).text.utf8ByteSize ∧
    Text.IsBoundary text (begun.afterCalls k).text.utf8ByteSize
  /-- As bytes, a block stands between the offsets before and after the call that gives it. -/
  bytes : ∀ k i j, (begun.afterCalls k).revealed? = some i →
    (begun.afterCalls (k + 1)).revealed? = some j →
      text.toByteArray.extract i j = (String.ofList (block size k text.toList)).toByteArray
  /-- Once the whole text is shown, a call gives nothing and changes nothing. -/
  done : ∀ k, text.length ≤ k * size →
    (begun.afterCalls k).nextChunk = .ok (none, begun.afterCalls k)
  /-- The whole text is shown after as many calls as there are blocks, and not before. -/
  calls : ∀ k, (begun.afterCalls k).text = text ↔ blockCount size text ≤ k
  /-- The blocks are all that is shown. -/
  drained : ∀ limit, blockCount size text ≤ limit →
    begun.drain limit = .ok (blocks size text, begun.afterCalls (blockCount size text))
  /-- Together they are the text. -/
  joined : Text.join "" (blocks size text) = text

variable {s : Session} {text : String} {size k : Nat}

theorem blockCount_le_iff (hsize : 0 < size) :
    blockCount size text ≤ k ↔ text.length ≤ k * size := by
  unfold blockCount
  rw [ceilDiv_le_iff_le_mul hsize, Nat.mul_comm]

theorem lt_blockCount_iff (hsize : 0 < size) :
    k < blockCount size text ↔ k * size < text.length := by
  rw [← Nat.not_le, blockCount_le_iff hsize, Nat.not_le]

theorem length_block (size k : Nat) (text : String) :
    (block size k text.toList).length = min size (text.length - k * size) := by
  unfold block
  rw [List.length_take, List.length_drop, String.length_toList]

/-- With one more block the first characters are those of one more block. -/
theorem take_append_block (size k : Nat) (cs : List Char) :
    cs.take (k * size) ++ block size k cs = cs.take ((k + 1) * size) := by
  unfold block
  rw [Nat.succ_mul, List.take_add]

/-- **The blocks are the text**, as far as they go. -/
theorem flatMap_block (size k : Nat) (cs : List Char) :
    (List.range k).flatMap (fun i => block size i cs) = cs.take (k * size) := by
  induction k with
  | zero => simp
  | succ k ih =>
    rw [List.range_succ, List.flatMap_append, ih, List.flatMap_singleton, take_append_block]

theorem join_blocks (hsize : 0 < size) (text : String) :
    Text.join "" (blocks size text) = text := by
  have hall : text.length ≤ blockCount size text * size :=
    (blockCount_le_iff hsize).1 (Nat.le_refl _)
  rw [← String.toList_inj, Ddl.toList_join_empty]
  unfold blocks
  rw [List.flatMap_map]
  simp only [String.toList_ofList]
  rw [flatMap_block, List.take_of_length_le (by rwa [String.length_toList])]

/-! ## What is shown, and its size in bytes -/

/-- What the first `k` blocks show. -/
def shownText (text : String) (size k : Nat) : String :=
  .ofList (text.toList.take (k * size))

theorem shownText_zero (text : String) (size : Nat) : shownText text size 0 = "" := by
  unfold shownText
  rw [Nat.zero_mul, List.take_zero, String.ofList_nil]

theorem shownText_succ (text : String) (size k : Nat) :
    shownText text size (k + 1) = shownText text size k ++ .ofList (block size k text.toList) := by
  unfold shownText
  rw [← take_append_block, String.ofList_append]

theorem eq_shownText_append (text : String) (size k : Nat) :
    text = shownText text size k ++ .ofList (text.toList.drop (k * size)) := by
  unfold shownText
  rw [← String.ofList_append, List.take_append_drop, String.ofList_toList]

/-- A text in three parts: what is shown, the next block, and what comes after it. -/
theorem eq_shownText_append_block (text : String) (size k : Nat) :
    text = shownText text size k ++ (.ofList (block size k text.toList) ++
      .ofList (text.toList.drop ((k + 1) * size))) := by
  rw [← String.append_assoc, ← shownText_succ]
  exact eq_shownText_append text size (k + 1)

theorem isBoundary_shownText (text : String) (size k : Nat) :
    Text.IsBoundary text (shownText text size k).utf8ByteSize :=
  Text.isBoundary_of_eq_append (eq_shownText_append text size k)

/-- All bytes are shown if all characters are. -/
theorem utf8ByteSize_le_shownText_iff : text.utf8ByteSize ≤ (shownText text size k).utf8ByteSize ↔
    text.length ≤ k * size := by
  have hboundary := isBoundary_shownText text size k
  rw [← Text.sliceFrom_eq_empty_iff hboundary,
    Text.sliceFrom_of_eq_append (eq_shownText_append text size k), ← String.toList_inj,
    String.toList_ofList, String.toList_empty, List.drop_eq_nil_iff, String.length_toList]

/-! ## A session that shows blocks -/

/-- What is pending after `k` blocks. -/
def pendingBlocks (text previous : String) (size k : Nat) : PendingApply :=
  ⟨text, previous, (shownText text size k).utf8ByteSize, size, isBoundary_shownText text size k⟩

/-- **The session while it shows a text**, after `k` blocks. -/
def showingBlocks (s : Session) (text : String) (size k : Nat) : Session :=
  { s with
    text := shownText text size k
    pending := some (pendingBlocks text s.text size k) }

theorem hidden_pendingBlocks (text previous : String) (size k : Nat) :
    (pendingBlocks text previous size k).hidden = text.toList.drop (k * size) := by
  unfold PendingApply.hidden pendingBlocks
  dsimp only
  rw [Text.sliceFrom_of_eq_append (eq_shownText_append text size k), String.toList_ofList]

/-- Counting `size` characters behind the offset is going to that of one more block. -/
theorem revealedNext_pendingBlocks (text previous : String) (size k : Nat) :
    (pendingBlocks text previous size k).revealedNext =
      (shownText text size (k + 1)).utf8ByteSize := by
  unfold PendingApply.revealedNext pendingBlocks
  dsimp only
  rw [Text.offsetAfter_eq (eq_shownText_append text size k), String.toList_ofList, shownText_succ]
  rfl

/-- **The next piece** is the next block. -/
theorem advance_pendingBlocks (previous : String) (h : k * size < text.length) :
    (pendingBlocks text previous size k).advance =
      some (.ofList (block size k text.toList), pendingBlocks text previous size (k + 1)) := by
  have hleft : (pendingBlocks text previous size k).isComplete = false :=
    decide_eq_false (utf8ByteSize_le_shownText_iff.not.2 (Nat.not_le.2 h))
  have hnext := revealedNext_pendingBlocks text previous size k
  have hslice := Text.slice_of_eq_append (eq_shownText_append_block text size k) rfl
    (hnext.trans (congrArg String.utf8ByteSize (shownText_succ text size k)))
    (pendingBlocks text previous size k).onBoundary
    (pendingBlocks text previous size k).onBoundary_revealedNext
    (pendingBlocks text previous size k).revealed_le_revealedNext
  unfold PendingApply.advance
  rw [hleft, if_neg Bool.false_ne_true]
  refine congrArg some (Prod.ext hslice (PendingApply.ext rfl rfl ?_ rfl))
  dsimp only
  rw [hnext]
  rfl

theorem nextChunk_showingBlocks (s : Session) (h : k * size < text.length) :
    (showingBlocks s text size k).nextChunk =
      .ok (some (.ofList (block size k text.toList)), showingBlocks s text size (k + 1)) := by
  unfold nextChunk showingBlocks
  dsimp only
  rw [advance_pendingBlocks s.text h, shownText_succ]

theorem nextChunk_showingBlocks_done (s : Session) (h : text.length ≤ k * size) :
    (showingBlocks s text size k).nextChunk = .ok (none, showingBlocks s text size k) := by
  refine (nextChunk_eq_none_iff rfl).2 ?_
  rw [hidden_pendingBlocks]
  exact List.drop_of_length_le (by rwa [String.length_toList])

/-- Once the whole text is shown, another block is none. -/
theorem showingBlocks_succ (s : Session) (h : text.length ≤ k * size) :
    showingBlocks s text size (k + 1) = showingBlocks s text size k := by
  have hlength : text.toList.length ≤ k * size := by rwa [String.length_toList]
  have hmore : text.toList.length ≤ (k + 1) * size :=
    hlength.trans (Nat.mul_le_mul_right size (Nat.le_succ k))
  have hshown : shownText text size (k + 1) = shownText text size k := by
    unfold shownText
    rw [List.take_of_length_le hlength, List.take_of_length_le hmore]
  have hpending : pendingBlocks text s.text size (k + 1) = pendingBlocks text s.text size k :=
    PendingApply.ext rfl rfl (congrArg String.utf8ByteSize hshown) rfl
  unfold showingBlocks
  rw [hshown, hpending]

/-- **One call** shows one more block. -/
theorem step_showingBlocks (s : Session) (text : String) (size k : Nat) :
    ((showingBlocks s text size k).step .nextChunk).2 = showingBlocks s text size (k + 1) := by
  unfold step
  by_cases h : k * size < text.length
  · rw [nextChunk_showingBlocks s h]
    rfl
  · rw [nextChunk_showingBlocks_done s (Nat.not_lt.1 h), showingBlocks_succ s (Nat.not_lt.1 h)]
    rfl

/-- **Any number of calls** shows as many blocks. -/
theorem run_showingBlocks (s : Session) (text : String) (size k : Nat) :
    (showingBlocks s text size 0).afterCalls k = showingBlocks s text size k := by
  unfold afterCalls
  induction k with
  | zero => rfl
  | succ k ih =>
    rw [List.replicate_succ', run_append, ih]
    exact step_showingBlocks s text size k

/-- The calls that it takes until the whole text is shown. -/
theorem text_eq_iff (s : Session) (hsize : 0 < size) :
    (showingBlocks s text size k).text = text ↔ blockCount size text ≤ k := by
  have hlist : (showingBlocks s text size k).text = text ↔
      text.toList.take (k * size) = text.toList := by
    rw [← String.toList_inj]
    unfold showingBlocks shownText
    rw [String.toList_ofList]
  rw [hlist, blockCount_le_iff hsize, List.take_eq_self_iff, String.length_toList]

/-- **All that is left**, if `limit` calls are enough for it. -/
theorem drain_showingBlocks (s : Session) (hsize : 0 < size) {left limit : Nat}
    (hcount : k + left = blockCount size text) (hlimit : left ≤ limit) :
    (showingBlocks s text size k).drain limit =
      .ok ((List.range' k left).map fun i => .ofList (block size i text.toList),
        showingBlocks s text size (k + left)) := by
  induction left generalizing k limit with
  | zero =>
    have hdone : text.length ≤ k * size := (blockCount_le_iff hsize).1 hcount.ge
    cases limit with
    | zero => rfl
    | succ limit =>
      unfold drain
      rw [nextChunk_showingBlocks_done s hdone]
      rfl
  | succ left ih =>
    have hnext : k * size < text.length := (lt_blockCount_iff hsize).1 (by omega)
    cases limit with
    | zero => omega
    | succ limit =>
      have hleft : k + 1 + left = blockCount size text := by omega
      have hrest := ih hleft (Nat.le_of_succ_le_succ hlimit)
      unfold drain
      rw [nextChunk_showingBlocks s hnext]
      change ((showingBlocks s text size (k + 1)).drain limit >>= _) = _
      rw [hrest, List.range'_succ, Nat.add_right_comm]
      rfl

/-! ## Bytes -/

/-- The bytes of the middle part of a text. -/
theorem extract_middle (before part after : String) :
    (before ++ (part ++ after)).toByteArray.extract before.utf8ByteSize
      (before.utf8ByteSize + part.utf8ByteSize) = part.toByteArray := by
  rw [String.toByteArray_append, String.toByteArray_append]
  exact (ByteArray.extract_append_size_add' (i := 0) rfl).trans
    (ByteArray.extract_append_eq_left rfl)

/-- **A block as bytes** stands between the sizes of what is shown before it and after it. -/
theorem extract_block (text : String) (size k : Nat) :
    text.toByteArray.extract (shownText text size k).utf8ByteSize
      (shownText text size (k + 1)).utf8ByteSize =
        (String.ofList (block size k text.toList)).toByteArray := by
  have hmiddle := extract_middle (shownText text size k) (.ofList (block size k text.toList))
    (.ofList (text.toList.drop ((k + 1) * size)))
  rw [← eq_shownText_append_block] at hmiddle
  rw [shownText_succ, String.utf8ByteSize_append]
  exact hmiddle

/-! ## The whole text -/

/-- **A text that is begun is shown once**, block by block, in blocks of `n` characters, or of one
if `n` is zero. -/
theorem showsOnce_begin (s : Session) (free : s.pending = none) (text : String) (n : Nat) :
    (s.step (.beginApply text n)).1 = .ok () ∧
      ShowsOnce (s.step (.beginApply text n)).2 text (max n 1) := by
  have hsize : 0 < max n 1 := Nat.lt_of_lt_of_le Nat.zero_lt_one (Nat.le_max_right n 1)
  have hpending : ⟨text, s.text, 0, max n 1, Text.isBoundary_zero text⟩ =
      pendingBlocks text s.text (max n 1) 0 := by
    refine PendingApply.ext rfl rfl ?_ rfl
    exact (congrArg String.utf8ByteSize (shownText_zero text (max n 1))).symm
  have hbegun : (s.step (.beginApply text n)).2 = showingBlocks s text (max n 1) 0 := by
    rw [beginApply_eq free, hpending]
    unfold showingBlocks
    rw [shownText_zero]
  refine ⟨by rw [beginApply_eq free], ?_⟩
  rw [hbegun]
  constructor
  · intro k
    rw [run_showingBlocks]
    rfl
  · intro k hk
    rw [run_showingBlocks, run_showingBlocks, nextChunk_showingBlocks s hk]
  · intro k hk
    rw [length_block]
    omega
  · intro k
    rw [run_showingBlocks]
    exact ⟨rfl, isBoundary_shownText text _ k⟩
  · intro k i j hi hj
    rw [run_showingBlocks] at hi hj
    cases hi
    cases hj
    exact extract_block text _ k
  · intro k hk
    rw [run_showingBlocks, nextChunk_showingBlocks_done s hk]
  · intro k
    rw [run_showingBlocks]
    exact text_eq_iff s hsize
  · intro limit hlimit
    rw [run_showingBlocks, drain_showingBlocks s hsize (Nat.zero_add _) hlimit, Nat.zero_add,
      ← List.range_eq_range']
    rfl
  · exact join_blocks hsize text

/-- Three characters in five bytes, two at a time. -/
theorem showsOnce_begin_accents :
    let s : Session := { text := "-- old" }
    s.pending = none ∧ (s.step (.beginApply "ñañ" 2)).1 = .ok () ∧
      ShowsOnce (s.step (.beginApply "ñañ" 2)).2 "ñañ" 2 ∧ blocks 2 "ñañ" = ["ña", "ñ"] := by
  intro s
  obtain ⟨begun, shows⟩ := showsOnce_begin s rfl "ñañ" 2
  exact ⟨rfl, begun, shows, by decide⟩

end DdlGraph.Session
