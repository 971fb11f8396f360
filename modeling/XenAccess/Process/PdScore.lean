import XenAccess.Lib.BitCount
import XenAccess.Model.Image
import XenAccess.Model.KernelPd

/-!
# The score of a page

`xa_kernel_pd_score` adds the bit positions in which all entries of a page agree, and takes away
the entries that are not valid. Words that are zero do not count. The first two of the other
words are read by two nested loops, and the inner one does not look whether the word it finds is
valid: the score is the documented one exactly if it is.
-/

namespace XenAccess

open BitCount

variable {msize : U32} {acc : PdMatches} {words : List U32}

/-! ## Counting bits -/

/-- The number of bits that are set. -/
def popCount (n : U32) : Nat := (List.range 32).countP fun i => n.getLsbD i

section Masks

variable {mask three one : U32} {k : Nat}

theorem toNat_and_rep (n : U32) (hmask : mask.toNat = k % 2 ^ 32) :
    (n &&& mask).toNat = n.toNat &&& k := by
  rw [BitVec.toNat_and, hmask, and_mod n.isLt]

theorem toNat_shift_and_rep (n : U32) (i : Nat) (hmask : mask.toNat = k % 2 ^ 32) :
    ((n >>> i) &&& mask).toNat = n.toNat / 2 ^ i &&& k := by
  rw [toNat_and_rep _ hmask, BitVec.toNat_ushiftRight, Nat.shiftRight_eq_div_pow]

/-- The counts of the octal digits of a word. -/
theorem toNat_octalCounts (n : U32) (hthree : three.toNat = rep 8 3 12 % 2 ^ 32)
    (hone : one.toNat = rep 8 1 12 % 2 ^ 32) :
    (n - ((n >>> 1) &&& three) - ((n >>> 2) &&& one)).toNat = counts 12 n.toNat := by
  have hlt : n.toNat < 8 ^ 12 := n.isLt.trans (by decide)
  have hhalves := sub_halves hlt
  have htwo : ((n >>> 1) &&& three).toNat = n.toNat / 2 &&& rep 8 3 12 :=
    toNat_shift_and_rep n 1 hthree
  have hfour : ((n >>> 2) &&& one).toNat = n.toNat / 4 &&& rep 8 1 12 :=
    toNat_shift_and_rep n 2 hone
  have hfirst : (n >>> 1) &&& three ≤ n := by
    rw [BitVec.le_def, htwo]
    omega
  have hsecond : (n >>> 2) &&& one ≤ n - ((n >>> 1) &&& three) := by
    rw [BitVec.le_def, BitVec.toNat_sub_of_le hfirst, htwo, hfour]
    omega
  rw [BitVec.toNat_sub_of_le hsecond, BitVec.toNat_sub_of_le hfirst, htwo, hfour]
  exact sub_halves_eq hlt

/-- Neighbouring counts are added; the sum fits in a word. -/
theorem toNat_octalPairs {count : U32} (n : U32) (hcount : count.toNat = counts 12 n.toNat)
    (hmask : mask.toNat = rep 64 7 6 % 2 ^ 32) :
    ((count + (count >>> 3)) &&& mask).toNat =
      counts 12 n.toNat + counts 12 n.toNat / 8 &&& rep 64 7 6 := by
  have hroom : 7 * counts 12 n.toNat + 3 ≤ 17 * 8 ^ 10 := counts_le (k := 10) n.isLt
  have hshift : (count >>> 3).toNat = counts 12 n.toNat / 8 := by
    rw [BitVec.toNat_ushiftRight, Nat.shiftRight_eq_div_pow, hcount]
  have hsum : (count + (count >>> 3)).toNat = counts 12 n.toNat + counts 12 n.toNat / 8 := by
    rw [BitVec.toNat_add, hshift, hcount]
    apply Nat.mod_eq_of_lt
    omega
  rw [toNat_and_rep _ hmask, hsum]

end Masks

/-- `xa_kernel_pd_bitcount` counts the bits. -/
theorem xaKernelPdBitcount_eq (n : U32) : xaKernelPdBitcount n = popCount n := by
  have hlt : n.toNat < 8 ^ 12 := n.isLt.trans (by decide)
  have hcount : xaKernelPdBitcount n = octalCount 6 n.toNat := by
    rw [xaKernelPdBitcount, BitVec.toNat_umod,
      toNat_octalPairs n (toNat_octalCounts n rfl rfl) rfl, octalCount, sub_halves_eq hlt]
    rfl
  rw [hcount, octalCount_eq (by decide) hlt]
  exact ones_of_lt n.isLt 4

/-! ## Words that are zero -/

/-- The words that are not zero. -/
def nonzero (words : List U32) : List U32 := words.filter fun w => w != 0

/-- The number of words that `xa_kernel_pd_valid_entry` rejects. -/
def rejected (msize : U32) (words : List U32) : Nat :=
  words.countP fun w => !xaKernelPdValidEntry w msize

theorem zero_valid (msize : U32) : xaKernelPdValidEntry 0 msize = true := by
  unfold xaKernelPdValidEntry
  simp [xaGetBit]

theorem scoreLoop_zero (started : Bool) (acc : PdMatches) (words : List U32) :
    scoreLoop msize started acc (0 :: words) = scoreLoop msize started acc words := by
  rw [scoreLoop, if_pos (zero_valid msize)]
  rfl

theorem scoreSecond_zero (value : U32) (acc : PdMatches) (words : List U32) :
    scoreSecond msize value acc (0 :: words) = scoreSecond msize value acc words := by
  rw [scoreSecond]
  rfl

theorem nonzero_cons_zero (words : List U32) : nonzero (0 :: words) = nonzero words :=
  List.filter_cons_of_neg (by simp)

theorem nonzero_cons {w : U32} (hw : w ≠ 0) (words : List U32) :
    nonzero (w :: words) = w :: nonzero words :=
  List.filter_cons_of_pos (by simpa using hw)

/-- Both loops pass over words that are zero. -/
theorem score_nonzero (words : List U32) :
    (∀ started acc, scoreLoop msize started acc words =
        scoreLoop msize started acc (nonzero words)) ∧
      ∀ value acc, scoreSecond msize value acc words =
        scoreSecond msize value acc (nonzero words) := by
  induction words with
  | nil => exact ⟨fun _ _ => rfl, fun _ _ => rfl⟩
  | cons w words ih =>
    obtain ⟨hloop, hsecond⟩ := ih
    by_cases hw : w = 0
    · subst hw
      rw [nonzero_cons_zero]
      refine ⟨fun started acc => ?_, fun value acc => ?_⟩
      · rw [scoreLoop_zero, hloop]
      · rw [scoreSecond_zero, hsecond]
    · rw [nonzero_cons hw]
      refine ⟨fun started acc => ?_, fun value acc => ?_⟩
      · rw [scoreLoop, scoreLoop]
        simp only [hloop, hsecond]
      · rw [scoreSecond, scoreSecond]
        simp only [hloop, hsecond]

theorem rejected_nonzero (words : List U32) :
    rejected msize (nonzero words) = rejected msize words := by
  induction words with
  | nil => rfl
  | cons w words ih =>
    by_cases hw : w = 0
    · subst hw
      rw [nonzero_cons_zero, ih]
      refine (List.countP_cons_of_neg ?_).symm
      rw [zero_valid]
      exact Bool.false_ne_true
    · rw [nonzero_cons hw, rejected, List.countP_cons, rejected, List.countP_cons]
      exact congrArg (· + _) ih

/-! ## Words that are not zero -/

/-- The positions that are set in a mask and clear in all words. -/
def meet0 (m : U32) (words : List U32) : U32 := words.foldl (fun m w => m &&& ~~~w) m

/-- The positions that are set in a mask and in all words. -/
def meet1 (m : U32) (words : List U32) : U32 := words.foldl (fun m w => m &&& w) m

/-- What a word that is not valid takes from the score. -/
def penalty (msize w : U32) : Nat := if xaKernelPdValidEntry w msize then 0 else 1

theorem rejected_cons (w : U32) (words : List U32) :
    rejected msize (w :: words) = penalty msize w + rejected msize words := by
  rw [rejected, List.countP_cons, penalty, Nat.add_comm]
  cases xaKernelPdValidEntry w msize <;> rfl

/-- A round of the outer loop with a word that is not zero. -/
theorem scoreLoop_cons {w : U32} (hw : w ≠ 0) (started : Bool) (acc : PdMatches)
    (words : List U32) :
    scoreLoop msize started acc (w :: words) =
      if !started then
        scoreSecond msize w { acc with correction := acc.correction - penalty msize w } words
      else
        scoreLoop msize started
          ⟨acc.matches0 &&& ~~~w, acc.matches1 &&& w, acc.correction - penalty msize w⟩ words := by
  have hne : (w != 0) = true := bne_iff_ne.mpr hw
  rw [scoreLoop, penalty, if_pos hne]
  cases xaKernelPdValidEntry w msize
  · rfl
  · simp

theorem scoreSecond_cons {w : U32} (hw : w ≠ 0) (value : U32) (acc : PdMatches)
    (words : List U32) :
    scoreSecond msize value acc (w :: words) =
      scoreLoop msize true
        { acc with matches0 := ~~~value &&& ~~~w, matches1 := value &&& w } words := by
  rw [scoreSecond, if_pos (bne_iff_ne.mpr hw)]

/-- From the third word on each word is compared and checked. -/
theorem scoreLoop_started (hwords : 0 ∉ words) (acc : PdMatches) :
    scoreLoop msize true acc words =
      ⟨meet0 acc.matches0 words, meet1 acc.matches1 words,
        acc.correction - rejected msize words⟩ := by
  induction words generalizing acc with
  | nil => rw [scoreLoop, rejected, List.countP_nil, Int.natCast_zero, Int.sub_zero]; rfl
  | cons w words ih =>
    obtain ⟨hw, hrest⟩ := not_or.mp (mt List.mem_cons.mpr hwords)
    rw [scoreLoop_cons (Ne.symm hw), rejected_cons]
    show scoreLoop msize true _ words = _
    rw [ih hrest, Int.natCast_add, ← Int.sub_sub]
    rfl

/-! ## Positions that agree -/

/-- The number of positions that have the value `b` in all words. -/
def agreeing (b : Bool) (words : List U32) : Nat :=
  (List.range 32).countP fun i => words.all fun w => w.getLsbD i == b

theorem getLsbD_meet0 (m : U32) (words : List U32) {i : Nat} (hi : i < 32) :
    (meet0 m words).getLsbD i = (m.getLsbD i && words.all fun w => w.getLsbD i == false) := by
  induction words generalizing m with
  | nil => exact (Bool.and_true _).symm
  | cons w words ih =>
    have hbit : (m &&& ~~~w).getLsbD i = (m.getLsbD i && (w.getLsbD i == false)) := by
      rw [BitVec.getLsbD_and, BitVec.getLsbD_not, decide_eq_true hi, Bool.true_and, beq_false]
    rw [List.all_cons, ← Bool.and_assoc, ← hbit]
    exact ih (m &&& ~~~w)

theorem getLsbD_meet1 (m : U32) (words : List U32) (i : Nat) :
    (meet1 m words).getLsbD i = (m.getLsbD i && words.all fun w => w.getLsbD i == true) := by
  induction words generalizing m with
  | nil => exact (Bool.and_true _).symm
  | cons w words ih =>
    have hbit : (m &&& w).getLsbD i = (m.getLsbD i && (w.getLsbD i == true)) := by
      rw [BitVec.getLsbD_and, beq_true]
    rw [List.all_cons, ← Bool.and_assoc, ← hbit]
    exact ih (m &&& w)

theorem popCount_meet0 (v w : U32) (words : List U32) :
    popCount (meet0 (~~~v &&& ~~~w) words) = agreeing false (v :: w :: words) := by
  apply List.countP_congr
  intro i hi
  have hlt : i < 32 := List.mem_range.mp hi
  rw [getLsbD_meet0 _ _ hlt, BitVec.getLsbD_and, BitVec.getLsbD_not, BitVec.getLsbD_not,
    decide_eq_true hlt, List.all_cons, List.all_cons, beq_false, beq_false,
    Bool.true_and, Bool.true_and, Bool.and_assoc]

theorem popCount_meet1 (v w : U32) (words : List U32) :
    popCount (meet1 (v &&& w) words) = agreeing true (v :: w :: words) := by
  apply List.countP_congr
  intro i _
  rw [getLsbD_meet1, BitVec.getLsbD_and, List.all_cons, List.all_cons, beq_true,
    beq_true, Bool.and_assoc]

/-! ## The score -/

/-- The first `n` words of a page. -/
def pageWords (memory : Page) (n : Nat) : List U32 :=
  (List.range n).map fun i => memory.u32 (BitVec.ofNat 32 (4 * i))

theorem words_eq_pageWords (memory : Page) {n : Nat} (hn : 4 * n < 2 ^ 32) :
    memory.words (BitVec.ofNat 32 (4 * n)) = pageWords memory n := by
  have hlen : ((BitVec.ofNat 32 (4 * n)).toNat + 3) / 4 = n := by
    rw [BitVec.toNat_ofNat, Nat.mod_eq_of_lt hn]
    omega
  rw [Page.words, hlen]
  rfl

/-- Word `i` of a page of a guest given by its words. -/
def imageWord (words : Words) (base : U32) (i : Nat) : U32 :=
  (words.lookup (base + BitVec.ofNat 32 (4 * i))).getD 0

theorem pageWords_image {words : Words} {base : U32} (hbase : base.toNat % 4 = 0) {n : Nat} :
    pageWords (imagePage words base) n = (List.range n).map (imageWord words base) := by
  apply List.map_congr_left
  intro i _
  apply imagePage_u32
  rw [BitVec.toNat_add, BitVec.toNat_ofNat]
  omega

/-- The words that are not zero in a page of a guest given by its words: only those of the words
`j` to `j + c`, when the others are not in the table. -/
theorem nonzero_imagePage {words : Words} {base : U32} (hbase : base.toNat % 4 = 0) {j c n : Nat}
    (hroom : j + c ≤ n) (hn : 4 * n < 2 ^ 32)
    (hkeys : words.all fun e => decide
      (4 * j ≤ (e.1 - base).toNat ∧ (e.1 - base).toNat < 4 * (j + c) ∨
        4 * n ≤ (e.1 - base).toNat)) :
    nonzero (pageWords (imagePage words base) n) =
      nonzero ((List.range' j c).map (imageWord words base)) := by
  have hzero (i : Nat) (hi : i < j ∨ j + c ≤ i) (hin : i < n) : imageWord words base i = 0 := by
    have hnone : words.lookup (base + BitVec.ofNat 32 (4 * i)) = none := by
      rw [List.lookup_eq_none_iff]
      intro e he
      rw [bne_iff_ne]
      intro heq
      have hkey := of_decide_eq_true (List.all_eq_true.mp hkeys e he)
      rw [← heq, add_sub_cancel_left, BitVec.toNat_ofNat] at hkey
      omega
    rw [imageWord, hnone]
    rfl
  have hrest (s m : Nat) (hm : ∀ i, s ≤ i → i < s + m → imageWord words base i = 0) :
      nonzero ((List.range' s m).map (imageWord words base)) = [] := by
    rw [nonzero, List.filter_eq_nil_iff]
    intro w hw
    obtain ⟨i, hi, rfl⟩ := List.mem_map.mp hw
    obtain ⟨hle, hlt⟩ := List.mem_range'_1.mp hi
    rw [hm i hle hlt]
    exact Bool.false_ne_true
  obtain ⟨m, rfl⟩ := Nat.exists_eq_add_of_le hroom
  have hsplit : List.range (j + c + m) =
      List.range' 0 j ++ (List.range' j c ++ List.range' (j + c) m) := by
    have hfirst : List.range' 0 j ++ List.range' (0 + j) (c + m) = List.range' 0 (j + (c + m)) :=
      List.range'_append_1
    rw [List.range'_append_1, List.range_eq_range', Nat.add_assoc, ← hfirst, Nat.zero_add]
  rw [pageWords_image hbase, hsplit, List.map_append, List.map_append, nonzero,
    List.filter_append, List.filter_append]
  show nonzero _ ++ (nonzero _ ++ nonzero _) = nonzero _
  rw [hrest 0 j fun i _ hi => hzero i (Or.inl (by omega)) (by omega),
    hrest (j + c) m fun i hle hi => hzero i (Or.inr hle) (by omega), List.append_nil]
  rfl

/-- What the code computes: the second word that is not zero costs nothing. -/
theorem xaKernelPdScore_eq (msize : U32) (memory : Page) {n : Nat} (hn : 4 * n < 2 ^ 32) {v w : U32}
    {rest : List U32} (hwords : nonzero (pageWords memory n) = v :: w :: rest) :
    xaKernelPdScore (some memory) (BitVec.ofNat 32 (4 * n)) msize =
      agreeing false (v :: w :: rest) + agreeing true (v :: w :: rest) -
        (penalty msize v + rejected msize rest : Nat) := by
  have hne : ∀ u ∈ v :: w :: rest, u ≠ 0 := by
    intro u hu
    rw [← hwords] at hu
    exact bne_iff_ne.mp (List.mem_filter.mp hu).2
  have hv : v ≠ 0 := hne v List.mem_cons_self
  have hw : w ≠ 0 := hne w (List.mem_cons_of_mem v List.mem_cons_self)
  have hrest : 0 ∉ rest := fun hmem =>
    hne 0 (List.mem_cons_of_mem v (List.mem_cons_of_mem w hmem)) rfl
  have hloop : scoreLoop msize false ⟨0, 0, 0⟩ (memory.words (BitVec.ofNat 32 (4 * n))) =
      ⟨meet0 (~~~v &&& ~~~w) rest, meet1 (v &&& w) rest,
        0 - (penalty msize v : Int) - rejected msize rest⟩ := by
    rw [words_eq_pageWords memory hn, (score_nonzero _).1, hwords, scoreLoop_cons hv]
    show scoreSecond msize v _ (w :: rest) = _
    rw [scoreSecond_cons hw, scoreLoop_started hrest]
  rw [xaKernelPdScore]
  simp only [hloop, xaKernelPdBitcount_eq, popCount_meet0, popCount_meet1]
  omega

/-- A page without entries. -/
theorem xaKernelPdScore_empty (memory : Page) {n : Nat} (hn : 4 * n < 2 ^ 32)
    (hwords : nonzero (pageWords memory n) = []) :
    xaKernelPdScore (some memory) (BitVec.ofNat 32 (4 * n)) msize = 0 := by
  have hloop : scoreLoop msize false ⟨0, 0, 0⟩ (memory.words (BitVec.ofNat 32 (4 * n))) =
      ⟨0, 0, 0⟩ := by
    rw [words_eq_pageWords memory hn, (score_nonzero _).1, hwords]
    rfl
  rw [xaKernelPdScore]
  simp only [hloop]
  decide

/-- What the score is documented to be. -/
structure ScoresAsDocumented (memory : Page) (n : Nat) (msize : U32) : Prop where
  bitcount : ∀ v, xaKernelPdBitcount v = popCount v
  score : xaKernelPdScore (some memory) (BitVec.ofNat 32 (4 * n)) msize =
    agreeing false (nonzero (pageWords memory n)) + agreeing true (nonzero (pageWords memory n)) -
      rejected msize (pageWords memory n)

/-- **When the score is the documented one**: if the second word that is not zero is a valid
entry. -/
theorem scoresAsDocumented_iff (memory : Page) (n : Nat) (msize : U32) (hn : 4 * n < 2 ^ 32)
    (htwo : 2 ≤ (nonzero (pageWords memory n)).length) :
    ScoresAsDocumented memory n msize ↔
      ∀ w ∈ (nonzero (pageWords memory n))[1]?, xaKernelPdValidEntry w msize = true := by
  obtain ⟨v, w, rest, hwords⟩ : ∃ v w rest, nonzero (pageWords memory n) = v :: w :: rest := by
    match hwords : nonzero (pageWords memory n) with
    | [] | [v] => rw [hwords] at htwo; simp at htwo
    | v :: w :: rest => exact ⟨v, w, rest, rfl⟩
  have hscore := xaKernelPdScore_eq msize memory hn hwords
  have hrejected : rejected msize (pageWords memory n) =
      penalty msize v + (penalty msize w + rejected msize rest) := by
    rw [← rejected_nonzero, hwords, rejected_cons, rejected_cons]
  have hsecond : (∀ u ∈ (v :: w :: rest)[1]?, xaKernelPdValidEntry u msize = true) ↔
      penalty msize w = 0 := by
    rw [penalty]
    simp
  rw [hwords, hsecond]
  constructor
  · intro hdocumented
    have heq := hdocumented.score
    rw [hscore, hwords, hrejected] at heq
    omega
  · intro hvalid
    refine ⟨xaKernelPdBitcount_eq, ?_⟩
    rw [hscore, hwords, hrejected, hvalid, Nat.zero_add]

/-- A page of 4096 bytes whose first two words are given. -/
def twoEntries (v w : U32) : Page := imagePage [(0, v), (4, w)] 0

theorem nonzero_twoEntries (v w : U32) :
    nonzero (pageWords (twoEntries v w) 1024) = nonzero [v, w] :=
  nonzero_imagePage (j := 0) (c := 2) rfl (by decide) (by decide) (by simp)

theorem twoEntries_scores : ScoresAsDocumented (twoEntries 0x1063 0x2063) 1024 0x1000000 := by
  have hwords := nonzero_twoEntries 0x1063 0x2063
  apply (scoresAsDocumented_iff (twoEntries 0x1063 0x2063) 1024 0x1000000 (by decide) ?_).mpr
  · rw [hwords]
    intro w hw
    obtain rfl : 0x2063 = w := Option.some.inj hw
    rfl
  · rw [hwords]
    exact Nat.le_refl 2

/-- An entry that is not valid stands behind another one: it has to cost a point, and does
not. -/
theorem twoEntries_not_scores :
    ¬ScoresAsDocumented (twoEntries 0x1063 0xFFFFFFFF) 1024 0x1000000 := by
  have hwords : nonzero (pageWords (twoEntries 0x1063 0xFFFFFFFF) 1024) = [0x1063, 0xFFFFFFFF] :=
    nonzero_twoEntries 0x1063 0xFFFFFFFF
  have hrejected : rejected 0x1000000 (pageWords (twoEntries 0x1063 0xFFFFFFFF) 1024) = 1 := by
    rw [← rejected_nonzero, hwords]
    decide
  intro hdocumented
  have hscore := hdocumented.score
  rw [xaKernelPdScore_eq _ _ (by decide) hwords, hwords, hrejected] at hscore
  revert hscore
  decide

end XenAccess
