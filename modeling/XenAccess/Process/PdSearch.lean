import XenAccess.Model.PdSearch
import XenAccess.Process.PdScore

/-!
# The lowest page directory

`xa_find_kernel_pd` is to return the lowest of the pages that look like a page directory and
share their kernel entries with another one. Its list ends at the first node with the address
`0`, and so before a candidate at this address; without any candidate nothing is written into
the first node. The search is right exactly if there is a candidate, and page `0` is none or
the one to return.
-/

namespace XenAccess

open Sll Prog

variable {h : Host} {p : XaParams} {m : Malloc} {blocks : Nat → Sll.Node Candidate}

/-! ## Pages to return -/

/-- The score of the page at an address. -/
def pdScore (h : Host) (p : XaParams) (a : U32) : Int :=
  xaKernelPdScore (pdPage h p a) p.pageSize p.size

def pdChecksum (h : Host) (p : XaParams) (a : U32) : U32 := xaKernelPdChecksum p (pdPage h p a)

def pdSelfref (h : Host) (p : XaParams) (a : U32) : Int := xaKernelPdSelfref p (pdPage h p a) a

/-- A page below the memory size with a positive score. -/
structure PdCandidate (h : Host) (p : XaParams) (a : U32) : Prop where
  aligned : a.toNat % 4096 = 0
  below : a < p.size
  score : 0 < pdScore h p a

/-- A candidate whose checksum is not zero and is that of another candidate; for Windows it
also has an entry for itself. -/
structure PdKept (h : Host) (p : XaParams) (a : U32) : Prop where
  candidate : PdCandidate h p a
  checksum : pdChecksum h p a ≠ 0
  shared : ∃ b, PdCandidate h p b ∧ b ≠ a ∧ pdChecksum h p b = pdChecksum h p a
  selfref : p.osType = .windows → 0 < pdSelfref h p a

/-- The virtual address of the lowest page to keep, or that of page `0` when there is none. -/
def LowestKept (h : Host) (p : XaParams) (r : U32) : Prop :=
  (∃ a, PdKept h p a ∧ (∀ b, PdKept h p b → a ≤ b) ∧ r = a + p.pageOffset) ∨
    (∀ a, ¬PdKept h p a) ∧ r = p.pageOffset

/-- The search ends with this address, whatever `malloc` returns. -/
def FindsKernelPd (h : Host) (p : XaParams) : Prop :=
  ∀ m blocks, ∃ N, ∀ fuel ≥ N, ∃ r, xaFindKernelPd h p m blocks fuel = .ok r ∧ LowestKept h p r

/-! ## Candidates -/

/-- The candidates among `r` pages from page `i` on. -/
def candidatesFrom (h : Host) (p : XaParams) (i r : Nat) : List U32 :=
  ((List.range' i r).map fun k => BitVec.ofNat 32 (4096 * k)).filter fun a =>
    decide (0 < pdScore h p a)

theorem candidatesFrom_succ (i r : Nat) : candidatesFrom h p i (r + 1) =
    if 0 < pdScore h p (BitVec.ofNat 32 (4096 * i)) then
      BitVec.ofNat 32 (4096 * i) :: candidatesFrom h p (i + 1) r
    else candidatesFrom h p (i + 1) r := by
  rw [candidatesFrom, List.range'_succ, List.map_cons, List.filter_cons]
  simp only [decide_eq_true_eq]
  rfl

theorem candidatesFrom_length (i r : Nat) : (candidatesFrom h p i r).length ≤ r := by
  apply (List.length_filter_le _ _).trans
  rw [List.length_map, List.length_range']

/-- A candidate as the lines below "list add" fill it. -/
def foundAt (h : Host) (p : XaParams) (cur : Candidate) (a : U32) : Candidate :=
  { cur with address := a, score := pdScore h p a }

/-- A round of the loop over the pages. -/
theorem pageLoop_succ (malloc : Nat → Candidate) (n : Nat) (address : U32)
    (list : List Candidate) (cur : Candidate) :
    pageLoop h p malloc (n + 1) address list cur =
      if address < p.size then
        if 0 < pdScore h p address then
          let list := list ++ [foundAt h p cur address]
          pageLoop h p malloc n (address + p.pageSize) list { malloc list.length with address := 0 }
        else pageLoop h p malloc n (address + p.pageSize) list cur
      else .ok (list ++ [cur]) := rfl

section Pages

variable {r : Nat} (hr : p.size.toNat = 4096 * r)
include hr

theorem toNat_page {k : Nat} (hk : k < r) : (BitVec.ofNat 32 (4096 * k)).toNat = 4096 * k := by
  rw [BitVec.toNat_ofNat, Nat.mod_eq_of_lt]
  have hlt := p.size.isLt
  omega

theorem mem_candidates {a : U32} : a ∈ candidatesFrom h p 0 r ↔ PdCandidate h p a := by
  rw [candidatesFrom, List.mem_filter, List.mem_map, decide_eq_true_eq]
  constructor
  · rintro ⟨⟨k, hk, rfl⟩, hscore⟩
    have hlt : k < r := (List.mem_range'_1.mp hk).2.trans_eq (Nat.zero_add r)
    have hpage := toNat_page hr hlt
    refine ⟨?_, ?_, hscore⟩
    · rw [hpage]
      exact Nat.mul_mod_right 4096 k
    · rw [BitVec.lt_def, hpage, hr]
      omega
  · intro ha
    have hbelow := BitVec.lt_def.mp ha.below
    have haligned := ha.aligned
    refine ⟨⟨a.toNat / 4096, List.mem_range'_1.mpr ⟨Nat.zero_le _, by omega⟩, ?_⟩, ha.score⟩
    rw [show 4096 * (a.toNat / 4096) = a.toNat by omega, BitVec.ofNat_toNat, BitVec.setWidth_eq]

/-- The candidates are found in increasing order. -/
theorem candidates_sorted : (candidatesFrom h p 0 r).Pairwise (· < ·) := by
  apply List.Pairwise.filter
  rw [List.pairwise_map]
  apply List.Pairwise.imp_of_mem _ List.pairwise_lt_range'
  intro k l hk hl hkl
  have hlr : l < r := (List.mem_range'_1.mp hl).2.trans_eq (Nat.zero_add r)
  rw [BitVec.lt_def, toNat_page hr (hkl.trans hlr), toNat_page hr hlr]
  omega

theorem page_lt_iff {i k : Nat} (hk : i + k = r) :
    BitVec.ofNat 32 (4096 * i) < p.size ↔ k ≠ 0 := by
  have hlt := p.size.isLt
  rw [BitVec.lt_def, BitVec.toNat_ofNat, hr, Nat.mod_eq_of_lt (by omega)]
  omega

omit hr in
theorem page_succ (hps : p.pageSize = 4096) (i : Nat) :
    BitVec.ofNat 32 (4096 * i) + p.pageSize = BitVec.ofNat 32 (4096 * (i + 1)) := by
  rw [hps, Nat.mul_succ, BitVec.ofNat_add]
  rfl

/-- The loop over the pages, as long as it has a round for each. -/
theorem pageLoop_candidates (hps : p.pageSize = 4096) (malloc : Nat → Candidate) {n k i : Nat}
    (hk : i + k = r) (hn : k < n) (list : List Candidate) (cur : Candidate) :
    ∃ cs c, pageLoop h p malloc n (BitVec.ofNat 32 (4096 * i)) list cur = .ok (list ++ cs ++ [c]) ∧
      cs.map Candidate.address = candidatesFrom h p i k ∧
      (cs = [] ∧ c = cur ∨ c.address = 0) := by
  induction n generalizing k i list cur with
  | zero => exact absurd hn (Nat.not_lt_zero k)
  | succ n ih =>
    have hsize := page_lt_iff (p := p) hr hk
    cases k with
    | zero =>
      refine ⟨[], cur, ?_, rfl, Or.inl ⟨rfl, rfl⟩⟩
      rw [pageLoop_succ, if_neg (mt hsize.mp fun hne => hne rfl), List.append_nil]
    | succ k =>
      have hk' : i + 1 + k = r := by omega
      have hn' : k < n := Nat.lt_of_succ_lt_succ hn
      rw [pageLoop_succ, if_pos (hsize.mpr (Nat.succ_ne_zero k)), candidatesFrom_succ,
        page_succ hps]
      by_cases hscore : 0 < pdScore h p (BitVec.ofNat 32 (4096 * i))
      · rw [if_pos hscore, if_pos hscore]
        obtain ⟨cs, c, hrun, haddr, hend⟩ := ih hk' hn' _ _
        refine ⟨foundAt h p cur (BitVec.ofNat 32 (4096 * i)) :: cs, c, ?_,
          congrArg (List.cons (BitVec.ofNat 32 (4096 * i))) haddr, Or.inr ?_⟩
        · rw [hrun, List.append_assoc list [_] cs]
          rfl
        · rcases hend with ⟨-, rfl⟩ | hzero
          · rfl
          · exact hzero
      · rw [if_neg hscore, if_neg hscore]
        exact ih hk' hn' list cur

end Pages

/-! ## The list in memory -/

variable {heap : Candidates} {list : Option Sll.Addr} {l : List (Sll.Addr × Candidate)}
  {last : Sll.Addr} {z : Candidate}

/-- The lines below "list add" fill the last node and link a new one behind it. -/
theorem listAdd_linked (m : Malloc) (blocks : Nat → Sll.Node Candidate)
    (hlist : Linked heap list l last z) (block : Nat) (address : U32)
    (score : Int) :
    ∃ heap' new, listAdd m blocks block address score (some last) heap = .ok (some new, heap') ∧
      Linked heap' list (l ++ [(last, { z with address, score })]) new
        { (blocks block).data with address := 0 } := by
  obtain ⟨heap₁, hstore, h₁⟩ := hlist.modify_last ({ · with address, score })
  have hfresh : m.alloc block heap₁.keys ∉ heap₁ := fun hmem =>
    m.fresh block heap₁.keys (AList.mem_keys.mp hmem)
  obtain ⟨heap₂, happend, h₂⟩ := h₁.append hfresh (blocks block)
  obtain ⟨heap₃, hmark, h₃⟩ := h₂.modify_last ({ · with address := 0 })
  refine ⟨heap₃, _, ?_, h₃⟩
  rw [listAdd, except_bind_of_ok hstore, except_bind_of_ok happend, except_bind_of_ok hmark]
  rfl

/-- The loop over the pages builds in memory the list of `pageLoop`. -/
theorem pdLoop_refines {n : Nat} {address : U32} {cs : List Candidate}
    (hlist : Linked heap list l last z)
    (hrun : pageLoop h p (fun k => (blocks k).data) n address (l.map Prod.snd) z = .ok cs) :
    ∃ heap' l' last' z',
      pdLoop h p m blocks n address (l.length + 1) (some last) heap = .ok heap' ∧
        Linked heap' list l' last' z' ∧ cs = l'.map Prod.snd ++ [z'] := by
  induction n generalizing heap l last z address with
  | zero => cases hrun
  | succ n ih =>
    rw [pageLoop_succ] at hrun
    rw [pdLoop]
    split at hrun
    · rename_i hlt
      rw [if_pos hlt]
      split at hrun
      · rename_i hscore
        obtain ⟨heap', new, hadd, hlist'⟩ := listAdd_linked m blocks hlist
          (l.length + 1) address (pdScore h p address)
        dsimp only at hrun
        rw [List.length_append, List.length_map] at hrun
        obtain ⟨heap'', l'', last'', z'', hrest, hlist'', hcs⟩ :=
          ih hlist' (by rw [List.map_append]; exact hrun)
        refine ⟨heap'', l'', last'', z'', ?_, hlist'', hcs⟩
        rw [List.length_append] at hrest
        show (if 0 < pdScore h p address then _ else _) = _
        rw [if_pos hscore]
        exact (except_bind_of_ok hadd).trans hrest
      · rename_i hscore
        obtain ⟨heap', l', last', z', hrest, hlist', hcs⟩ := ih hlist hrun
        refine ⟨heap', l', last', z', ?_, hlist', hcs⟩
        show (if 0 < pdScore h p address then _ else _) = _
        rw [if_neg hscore]
        exact hrest
    · rename_i hge
      rw [if_neg hge]
      exact ⟨heap, l, last, z, rfl, hlist, (Except.ok.inj hrun).symm⟩

/-! ## Removals -/

variable {fuel : Nat} {head list' : Option Sll.Addr} {as : List U32}

/-- The addresses in a list. -/
def addresses (l : List (Sll.Addr × Candidate)) : List U32 := l.map fun u => u.2.address

/-- The checksums in a list. -/
def checksums (l : List (Sll.Addr × Candidate)) : List U32 := l.map fun u => u.2.checksum

theorem checksums_middle (pre post : List (Sll.Addr × Candidate)) (a : Sll.Addr) (x : Candidate) :
    checksums (pre ++ (a, x) :: post) = checksums pre ++ x.checksum :: checksums post :=
  List.map_append

theorem checksums_length (l : List (Sll.Addr × Candidate)) : (checksums l).length = l.length :=
  List.length_map _

/-- The pages with the checksum of a page, if it is not zero. -/
def sameChecksum (h : Host) (p : XaParams) (as : List U32) (a : U32) : Nat :=
  as.countP fun b => pdChecksum h p a == pdChecksum h p b && pdChecksum h p a != 0

/-- A candidate with its checksum. -/
def withChecksum (h : Host) (p : XaParams) (c : Candidate) : Candidate :=
  { c with checksum := pdChecksum h p c.address }

/-- A candidate with the number of its entries for itself. -/
def withSelfref (h : Host) (p : XaParams) (c : Candidate) : Candidate :=
  { c with selfref := pdSelfref h p c.address }

/-- The field `matches` once the checksums in a list have been compared with that of a
candidate. -/
def withMatches (ks : List U32) (c : Candidate) : Candidate :=
  { c with nmatches := -1 + (ks.countP fun k => c.checksum == k && c.checksum != 0 : Nat) }

theorem withMatches_append (ks : List U32) (k : U32) (c : Candidate) :
    withMatches (ks ++ [k]) c =
      if c.checksum == k && c.checksum != 0 then
        { withMatches ks c with nmatches := (withMatches ks c).nmatches + 1 }
      else withMatches ks c := by
  simp only [withMatches, List.countP_append, List.countP_singleton]
  split
  · rw [Int.natCast_add, Int.add_assoc]
    rfl
  · rw [Nat.add_zero]

/-- A round of the loop over `cur2`. -/
theorem countMatch_round {pre post pre₂ post₂ : List (Sll.Addr × Candidate)} {a b : Sll.Addr}
    {x y : Candidate} {ks : List U32} (hlist : Linked heap list (pre₂ ++ (b, y) :: post₂) last z)
    (hsplit : pre₂ ++ (b, y) :: post₂ =
      pre ++ (a, withMatches (ks.take pre₂.length) x) :: post)
    (hks : checksums (pre ++ (a, x) :: post) = ks) :
    ∃ heap', countMatch (some a) (some b) heap = .ok heap' ∧
      Linked heap' list (pre ++ (a, withMatches (ks.take (pre₂.length + 1)) x) :: post) last z := by
  have hall : ks = checksums pre₂ ++ y.checksum :: checksums post₂ := by
    have hcs := congrArg checksums hsplit
    rw [checksums_middle, checksums_middle] at hcs
    rw [← hks, checksums_middle]
    exact hcs.symm
  have hget : ks[pre₂.length]? = some y.checksum := by
    rw [hall]
    simp [checksums]
  have htake : ks.take (pre₂.length + 1) = ks.take pre₂.length ++ [y.checksum] := by
    rw [List.take_add_one, hget]
    rfl
  obtain ⟨next₂, hload₂, -⟩ := hlist.load
  rw [hsplit] at hlist
  obtain ⟨next, hload, -⟩ := hlist.load
  rw [countMatch, except_bind_of_ok hload, except_bind_of_ok hload₂, htake, withMatches_append]
  show ∃ heap', (if (x.checksum == y.checksum && x.checksum != 0) = true then _ else _) = _ ∧ _
  split
  · exact hlist.modify _
  · exact ⟨heap, rfl, hlist⟩

/-- The loop over `cur2` has compared the first `j` checksums with that of one candidate. -/
def ComparedFirst (ks : List U32) (pre : List (Sll.Addr × Candidate)) (a : Sll.Addr) (x : Candidate)
    (post : List (Sll.Addr × Candidate)) (j : Nat) (l : List (Sll.Addr × Candidate)) : Prop :=
  l = pre ++ (a, withMatches (ks.take j) x) :: post

/-- The inner loop compares the checksum of a candidate with all. -/
theorem countMatches_linked {pre post : List (Sll.Addr × Candidate)} {a : Sll.Addr} {x : Candidate}
    (hn : (pre ++ (a, x) :: post).length < fuel)
    (hlist : Holds Candidate.isEnd heap list (pre ++ (a, x) :: post) last z) :
    ∃ heap', countMatches fuel list (some a) heap = .ok heap' ∧
      Linked heap' list
        (pre ++ (a, withMatches (checksums (pre ++ (a, x) :: post)) x) :: post) last z := by
  generalize hks : checksums (pre ++ (a, x) :: post) = ks
  have hx : Candidate.isEnd x = false :=
    hlist.inner (a, x) (List.mem_append_right pre List.mem_cons_self)
  have hround : RoundKeeps Candidate.isEnd (countMatch (some a)) list last z
      (ComparedFirst ks pre a x post) := by
    intro pre₂ b y post₂ heap hP h₂
    obtain ⟨heap', hrun, hlinked⟩ := countMatch_round h₂.linked hP hks
    rw [show _ = _ from hP] at h₂ ⊢
    refine ⟨heap', _, hrun, h₂.replace hlinked hx, ?_, rfl⟩
    rw [List.map_append, List.map_append]
    rfl
  obtain ⟨heap₁, hstore, h₁⟩ := hlist.linked.modify ({ · with nmatches := -1 })
  have hlen (y : Candidate) : (pre ++ (a, y) :: post).length = ks.length := by
    rw [← hks, checksums_length, List.length_append, List.length_append]
    rfl
  obtain ⟨heap', l', hrun, h', hP⟩ := walk_holds hround (by rw [hlen, ← hlen x]; exact hn)
    (hlist.replace h₁ hx) rfl
  refine ⟨heap', ?_, ?_⟩
  · rw [countMatches, except_bind_of_ok hstore]
    exact hrun
  · rw [hlen] at hP
    rw [show l' = _ from hP, List.take_length] at h'
    exact h'.linked

/-- The first loop over the list. -/
theorem setChecksum_holds (hn : l.length < fuel)
    (hlist : Holds Candidate.isEnd heap list l last z) :
    ∃ heap', walk Candidate.isEnd (setChecksum h p) fuel list heap = .ok heap' ∧
      Holds Candidate.isEnd heap' list (mapData (withChecksum h p) l) last z :=
  walk_annotate (g := fun x c : Candidate => { c with checksum := pdChecksum h p x.address })
    hlist.inner hn hlist

/-- The loop that compares all checksums. -/
theorem countMatches_holds (hn : l.length < fuel)
    (hlist : Holds Candidate.isEnd heap list l last z) :
    ∃ heap', walk Candidate.isEnd (countMatches fuel list) fuel list heap = .ok heap' ∧
      Holds Candidate.isEnd heap' list (mapData (withMatches (checksums l)) l) last z := by
  refine walk_map (f := withMatches (checksums l)) hlist.inner ?_ hn hlist
  intro pre a x post heap hsplit hpart
  have hks : checksums (mapData (withMatches (checksums l)) pre ++ (a, x) :: post) =
      checksums l := by
    rw [checksums_middle, checksums, mapData, List.map_map]
    show checksums pre ++ _ = checksums l
    rw [hsplit, checksums_middle]
  have hlen : (mapData (withMatches (checksums l)) pre ++ (a, x) :: post).length < fuel := by
    rw [← checksums_length, hks, checksums_length]
    exact hn
  obtain ⟨heap', hrun, hlinked⟩ := countMatches_linked hlen hpart
  rw [hks] at hlinked
  exact ⟨heap', hrun, hlinked⟩

theorem checksums_withChecksum (l : List (Sll.Addr × Candidate)) :
    checksums (mapData (withChecksum h p) l) = (addresses l).map (pdChecksum h p) := by
  rw [checksums, mapData, addresses, List.map_map, List.map_map]
  rfl

/-- A candidate is left if its checksum is that of another one. -/
theorem nmatches_pos_iff (c : Candidate) (as : List U32) :
    (!decide ((withMatches (as.map (pdChecksum h p)) (withChecksum h p c)).nmatches ≤ 0)) =
      decide (1 < sameChecksum h p as c.address) := by
  have hcount : ((as.map (pdChecksum h p)).countP fun k => pdChecksum h p c.address == k &&
      pdChecksum h p c.address != 0) = sameChecksum h p as c.address := by
    rw [List.countP_map]
    rfl
  show (!decide (-1 + (((as.map (pdChecksum h p)).countP fun k => pdChecksum h p c.address == k &&
    pdChecksum h p c.address != 0 : Nat) : Int) ≤ 0)) = _
  rw [hcount, ← decide_not]
  apply decide_eq_decide.mpr
  omega

/-- A removal that looks at data which a loop has set from the addresses. -/
theorem addresses_filter {f : Candidate → Candidate} (kept : Candidate → Bool)
    {test : U32 → Bool} (haddr : ∀ c, (f c).address = c.address)
    (hkept : ∀ c, kept (f c) = test c.address) :
    addresses ((mapData f l).filter fun u => kept u.2) = (addresses l).filter test := by
  rw [mapData, List.filter_map, addresses, List.map_map, addresses, List.filter_map]
  have hfilter : (l.filter fun u => kept (f u.2)) = l.filter fun u => test u.2.address :=
    List.filter_congr fun u _ => hkept u.2
  show ((l.filter fun u => kept (f u.2)).map fun u => (f u.2).address) =
    (l.filter fun u => test u.2.address).map fun u => u.2.address
  rw [hfilter]
  exact List.map_congr_left fun u _ => haddr u.2

/-- What is left when the checksums have been compared. -/
theorem keepMatches_holds (hn : l.length < fuel)
    (hlist : Holds Candidate.isEnd heap list l last z) :
    ∃ list' heap' l', keepMatches h p fuel list heap = .ok (list', heap') ∧
      Holds Candidate.isEnd heap' list' l' last z ∧
      addresses l' = (addresses l).filter fun a =>
        decide (1 < sameChecksum h p (addresses l) a) := by
  obtain ⟨heap₁, hrun₁, h₁⟩ := setChecksum_holds (h := h) (p := p) hn hlist
  obtain ⟨heap₂, hrun₂, h₂⟩ := countMatches_holds (by rw [length_mapData]; exact hn) h₁
  rw [checksums_withChecksum, mapData_mapData] at h₂
  obtain ⟨list', heap₃, hrun₃, h₃⟩ :=
    removeIf_holds (fun c : Candidate => decide (c.nmatches ≤ 0))
      (by rw [length_mapData]; exact hn) h₂ none
  refine ⟨list', heap₃, _, ?_, h₃, ?_⟩
  · rw [keepMatches, except_bind_of_ok hrun₁, except_bind_of_ok hrun₂]
    exact hrun₃
  · exact addresses_filter (fun c => !decide (c.nmatches ≤ 0)) (fun _ => rfl)
      fun c => nmatches_pos_iff c (addresses l)

/-- The loop over the list of a Windows guest. -/
theorem setSelfref_holds (hn : l.length < fuel)
    (hlist : Holds Candidate.isEnd heap list l last z) :
    ∃ heap', walk Candidate.isEnd (setSelfref h p) fuel list heap = .ok heap' ∧
      Holds Candidate.isEnd heap' list (mapData (withSelfref h p) l) last z :=
  walk_annotate (g := fun x c : Candidate => { c with selfref := pdSelfref h p x.address })
    hlist.inner hn hlist

/-- What is left for a Windows guest when the entries have been looked at. -/
theorem keepSelfrefs_holds (hn : l.length < fuel)
    (hlist : Holds Candidate.isEnd heap list l last z) :
    ∃ list' heap' l', keepSelfrefs h p fuel list heap = .ok (list', heap') ∧
      Holds Candidate.isEnd heap' list' l' last z ∧
      addresses l' = (addresses l).filter fun a =>
        decide (p.osType = .windows → 0 < pdSelfref h p a) := by
  by_cases hos : p.osType = .windows
  · obtain ⟨heap₁, hrun₁, h₁⟩ := setSelfref_holds (h := h) (p := p) hn hlist
    obtain ⟨list', heap₂, hrun₂, h₂⟩ :=
      removeIf_holds (fun c : Candidate => decide (c.selfref ≤ 0))
        (by rw [length_mapData]; exact hn) h₁ none
    refine ⟨list', heap₂, _, ?_, h₂, ?_⟩
    · rw [keepSelfrefs, if_pos hos, except_bind_of_ok hrun₁]
      exact hrun₂
    · refine addresses_filter (fun c => !decide (c.selfref ≤ 0)) (fun _ => rfl) fun c => ?_
      show (!decide (pdSelfref h p c.address ≤ 0)) = _
      rw [← decide_not]
      apply decide_eq_decide.mpr
      rw [Int.not_le]
      exact ⟨fun hpos _ => hpos, fun hpos => hpos hos⟩
  · refine ⟨list, heap, l, if_neg hos, hlist, ?_⟩
    symm
    rw [List.filter_eq_self]
    intro a _
    exact decide_eq_true fun hwin => absurd hwin hos

/-! ## The result -/

/-- The pages that are left of a list of candidates. -/
def keptOf (h : Host) (p : XaParams) (as : List U32) : List U32 :=
  (as.filter fun a => decide (1 < sameChecksum h p as a)).filter fun a =>
    decide (p.osType = .windows → 0 < pdSelfref h p a)

/-- The head of the list, where the last node has the address `0`. -/
theorem load_headD (hlist : Holds Candidate.isEnd heap list l last z) :
    ∃ node, load heap list = .ok node ∧ node.data.address = (addresses l).headD 0 := by
  cases l with
  | nil =>
    obtain rfl : list = some last := hlist.linked.seg
    obtain ⟨next, hload⟩ := hlist.linked.load_last
    exact ⟨_, hload, beq_iff_eq.mp hlist.mark⟩
  | cons u l =>
    obtain rfl : list = some u.1 := hlist.linked.seg.1
    have hlinked : Linked heap (some u.1) ([] ++ u :: l) last z := hlist.linked
    obtain ⟨next, hload, -⟩ := hlinked.load
    exact ⟨_, hload, rfl⟩

/-- The search from the list of candidates on. -/
theorem searchList_eq (hn : l.length < fuel) (hlist : Holds Candidate.isEnd heap list l last z) :
    searchList h p fuel list heap =
      .ok ((keptOf h p (addresses l)).headD 0 + p.pageOffset) := by
  obtain ⟨list₁, heap₁, l₁, hrun₁, h₁, haddr₁⟩ := keepMatches_holds (h := h) (p := p) hn hlist
  have hn₁ : l₁.length < fuel := by
    have hle := List.length_filter_le (fun a => decide (1 < sameChecksum h p (addresses l) a))
      (addresses l)
    rw [← haddr₁, addresses, addresses, List.length_map, List.length_map] at hle
    exact hle.trans_lt hn
  obtain ⟨list₂, heap₂, l₂, hrun₂, h₂, haddr₂⟩ := keepSelfrefs_holds (h := h) (p := p) hn₁ h₁
  obtain ⟨node, hload, hnode⟩ := load_headD h₂
  rw [searchList, except_bind_of_ok hrun₁]
  show (keepSelfrefs h p fuel list₁ heap₁ >>= _) = _
  rw [except_bind_of_ok hrun₂]
  show (load heap₂ list₂ >>= _) = _
  rw [except_bind_of_ok hload, hnode, haddr₂, haddr₁]
  rfl

/-- Another page has the same checksum. -/
theorem one_lt_sameChecksum_iff {a : U32} (hnodup : as.Nodup) (ha : a ∈ as) :
    1 < sameChecksum h p as a ↔
      pdChecksum h p a ≠ 0 ∧ ∃ b ∈ as, b ≠ a ∧ pdChecksum h p b = pdChecksum h p a := by
  by_cases hzero : pdChecksum h p a = 0
  · have hnone : sameChecksum h p as a = 0 := by
      rw [sameChecksum, List.countP_eq_zero]
      intro b _
      rw [hzero]
      simp
    rw [hnone]
    exact ⟨fun hlt => absurd hlt (Nat.not_lt_zero 1), fun hne => absurd hzero hne.1⟩
  · have hcount : sameChecksum h p as a =
        (as.erase a).countP (fun b => pdChecksum h p a == pdChecksum h p b) + 1 := by
      have hne : (pdChecksum h p a != 0) = true := bne_iff_ne.mpr hzero
      simp only [sameChecksum, hne, Bool.and_true]
      rw [(List.perm_cons_erase ha).countP_eq, List.countP_cons, if_pos (beq_self_eq_true _)]
    rw [hcount, Nat.lt_add_left_iff_pos, List.countP_pos_iff, and_iff_right hzero]
    simp only [hnodup.mem_erase_iff, beq_iff_eq]
    constructor
    · rintro ⟨b, ⟨hne, hb⟩, heq⟩
      exact ⟨b, hb, hne, heq.symm⟩
    · rintro ⟨b, hb, hne, heq⟩
      exact ⟨b, ⟨hne, hb⟩, heq.symm⟩

theorem mem_keptOf {a : U32} (has : ∀ b, b ∈ as ↔ PdCandidate h p b) (hnodup : as.Nodup) :
    a ∈ keptOf h p as ↔ PdKept h p a := by
  rw [keptOf, List.mem_filter, List.mem_filter, decide_eq_true_eq, decide_eq_true_eq]
  constructor
  · rintro ⟨⟨ha, hcount⟩, hself⟩
    obtain ⟨hne, b, hb, hba, heq⟩ := (one_lt_sameChecksum_iff hnodup ha).mp hcount
    exact ⟨(has a).mp ha, hne, ⟨b, (has b).mp hb, hba, heq⟩, hself⟩
  · intro ha
    have hmem := (has a).mpr ha.candidate
    obtain ⟨b, hb, hba, heq⟩ := ha.shared
    exact ⟨⟨hmem, (one_lt_sameChecksum_iff hnodup hmem).mpr
      ⟨ha.checksum, b, (has b).mpr hb, hba, heq⟩⟩, ha.selfref⟩

/-- The lowest page is the first of a list in increasing order. -/
theorem lowestKept_iff {ks : List U32} {r : U32} (hmem : ∀ a, a ∈ ks ↔ PdKept h p a)
    (hsorted : ks.Pairwise (· < ·)) : LowestKept h p r ↔ r = ks.headD 0 + p.pageOffset := by
  cases ks with
  | nil =>
    have hnone : ∀ a, ¬PdKept h p a := fun a ha => List.not_mem_nil ((hmem a).mpr ha)
    rw [List.headD_nil, zero_add]
    constructor
    · rintro (⟨a, ha, -⟩ | ⟨-, hr⟩)
      · exact absurd ha (hnone a)
      · exact hr
    · intro hr
      exact Or.inr ⟨hnone, hr⟩
  | cons k ks =>
    have hk : PdKept h p k := (hmem k).mp List.mem_cons_self
    have hleast : ∀ b, PdKept h p b → k ≤ b := by
      intro b hb
      rcases List.mem_cons.mp ((hmem b).mpr hb) with rfl | hb
      · exact BitVec.le_refl b
      · exact BitVec.le_of_lt (List.rel_of_pairwise_cons hsorted hb)
    rw [List.headD_cons]
    constructor
    · rintro (⟨a, ha, hle, rfl⟩ | ⟨hnone, -⟩)
      · rw [BitVec.le_antisymm (hle k hk) (hleast a ha)]
      · exact absurd hk (hnone k)
    · intro hr
      exact Or.inl ⟨k, hk, hleast, hr⟩

/-! ## The search -/

/-- The list when the loop over the pages ends: the candidates in increasing order, and the
address `0` behind them if there are any. -/
theorem pdLoop_candidates (m : Malloc) (blocks : Nat → Sll.Node Candidate)
    (hps : p.pageSize = 4096) {r : Nat} (hr : p.size.toNat = 4096 * r) (hfuel : r < fuel) :
    ∃ heap l last z,
      pdLoop h p m blocks fuel 0 1 (some (m.alloc 0 []))
          ((∅ : Candidates).insert (m.alloc 0 []) (blocks 0)) = .ok heap ∧
        Linked heap (some (m.alloc 0 [])) l last z ∧ addresses l = candidatesFrom h p 0 r ∧
        (l = [] ∧ z = (blocks 0).data ∨ z.address = 0) := by
  obtain ⟨cs, c, hrun, haddr, hend⟩ := pageLoop_candidates (h := h) hr hps
    (fun k => (blocks k).data) (Nat.zero_add r) hfuel [] (blocks 0).data
  obtain ⟨heap, l, last, z, hloop, hlist, hcs⟩ :=
    pdLoop_refines (m := m) (linked_singleton (m.alloc 0 []) (blocks 0)) hrun
  obtain ⟨rfl, hz⟩ : cs = l.map Prod.snd ∧ [c] = [z] :=
    List.append_inj' (by rw [← hcs, List.nil_append]) rfl
  obtain rfl : c = z := List.singleton_inj.mp hz
  refine ⟨heap, l, last, c, hloop, hlist, ?_, ?_⟩
  · rw [← haddr, List.map_map]
    rfl
  · rcases hend with ⟨hnil, hc⟩ | hzero
    · exact Or.inl ⟨List.map_eq_nil_iff.mp hnil, hc⟩
    · exact Or.inr hzero

/-- Without a candidate the loop leaves the list as it is. -/
theorem pdLoop_none (hps : p.pageSize = 4096) {r : Nat} (hr : p.size.toNat = 4096 * r)
    {n k i block : Nat} (hk : i + k = r) (hn : k < n) (hnone : candidatesFrom h p i k = [])
    (cur : Option Sll.Addr) (heap : Candidates) :
    pdLoop h p m blocks n (BitVec.ofNat 32 (4096 * i)) block cur heap = .ok heap := by
  induction n generalizing k i with
  | zero => exact absurd hn (Nat.not_lt_zero k)
  | succ n ih =>
    have hsize := page_lt_iff (p := p) hr hk
    cases k with
    | zero => rw [pdLoop, if_neg (mt hsize.mp fun hne => hne rfl)]
    | succ k =>
      rw [candidatesFrom_succ] at hnone
      split at hnone
      · cases hnone
      · rename_i hscore
        rw [pdLoop, if_pos (hsize.mpr (Nat.succ_ne_zero k)), page_succ hps]
        show (if 0 < pdScore h p _ then _ else _) = _
        rw [if_neg hscore]
        exact ih (by omega) (Nat.lt_of_succ_lt_succ hn) hnone

/-- A block as `malloc` may return it: not marked as the end, and with no next node. -/
def strayBlock : Sll.Node Candidate where
  data := { address := 1, checksum := 0, score := 0, nmatches := 0, selfref := 0 }
  next := none

/-- The loops run over the end of a list whose only node is such a block. -/
theorem searchList_stray (a : Sll.Addr) (r : U32) :
    searchList h p fuel (some a) ((∅ : Candidates).insert a strayBlock) ≠ .ok r := by
  have hload : load ((∅ : Candidates).insert a strayBlock) (some a) = .ok strayBlock :=
    load_of_lookup (AList.lookup_insert _)
  have hbody : ∀ heap',
      setChecksum h p (some a) ((∅ : Candidates).insert a strayBlock) = .ok heap' →
      ∃ y, load heap' (some a) = .ok { data := y, next := none } := by
    intro heap' hrun
    rw [setChecksum, except_bind_of_ok hload, Sll.modify,
      store_of_lookup (AList.lookup_insert (∅ : Candidates))] at hrun
    rw [← Except.ok.inj hrun]
    exact ⟨_, load_of_lookup (AList.lookup_insert _)⟩
  have hmark : Candidate.isEnd strayBlock.data = false := rfl
  have hwalk := walk_stray (n := fuel) hload hmark hbody
  intro hsearch
  obtain ⟨_, hkeep, -⟩ := except_bind_ok hsearch
  obtain ⟨heap', hrun, -⟩ := except_bind_ok hkeep
  exact hwalk heap' hrun

/-- What the search returns when there is a candidate. -/
theorem xaFindKernelPd_eq (m : Malloc) (blocks : Nat → Sll.Node Candidate)
    (hps : p.pageSize = 4096) {r : Nat} (hr : p.size.toNat = 4096 * r) (hfuel : r < fuel)
    (hsome : candidatesFrom h p 0 r ≠ []) :
    xaFindKernelPd h p m blocks fuel = .ok
      (if 0 ∈ candidatesFrom h p 0 r then p.pageOffset
      else (keptOf h p (candidatesFrom h p 0 r)).headD 0 + p.pageOffset) := by
  obtain ⟨heap, l, last, z, hloop, hlist, haddr, hend⟩ :=
    pdLoop_candidates (h := h) m blocks hps hr hfuel
  rw [xaFindKernelPd, except_bind_of_ok hloop]
  rw [← haddr] at hsome ⊢
  have hlen : l.length < fuel := by
    have hle := candidatesFrom_length (h := h) (p := p) 0 r
    rw [← haddr, addresses, List.length_map] at hle
    exact hle.trans_lt hfuel
  cases l with
  | nil => exact absurd rfl hsome
  | cons u l =>
    have hz : z.address = 0 := by
      rcases hend with ⟨hnil, -⟩ | hzero
      · cases hnil
      · exact hzero
    split
    · -- the first candidate is page `0`, and the list seems to be empty
      rename_i hmem
      have hsorted := candidates_sorted (h := h) hr
      have hu : u.2.address = 0 := by
        rw [← haddr] at hsorted
        rcases List.mem_cons.mp hmem with hu | hrest
        · exact hu.symm
        · exact (BitVec.not_lt_zero (List.rel_of_pairwise_cons hsorted hrest)).elim
      have hcut : Holds Candidate.isEnd heap (some (m.alloc 0 [])) [] u.1 u.2 :=
        ⟨hlist.cut_head, fun v hv => absurd hv List.not_mem_nil, beq_iff_eq.mpr hu⟩
      rw [searchList_eq ((Nat.zero_le _).trans_lt hfuel) hcut]
      exact congrArg Except.ok (zero_add p.pageOffset)
    · rename_i hmem
      refine searchList_eq hlen ⟨hlist, fun v hv => ?_, beq_iff_eq.mpr hz⟩
      apply beq_eq_false_iff_ne.mpr
      intro hzero
      exact hmem (List.mem_map.mpr ⟨v, hv, hzero⟩)

section Search

variable (hps : p.pageSize = 4096) {r : Nat} (hr : p.size.toNat = 4096 * r)
include hps hr

/-- Without a candidate the address in the first node is the one that `malloc` left there. -/
theorem exists_candidate_of_finds (hfinds : FindsKernelPd h p) : ∃ a, PdCandidate h p a := by
  by_contra hnone
  have hempty : candidatesFrom h p 0 r = [] := by
    apply List.eq_nil_iff_forall_not_mem.mpr
    intro a ha
    exact hnone ⟨a, (mem_candidates hr).mp ha⟩
  obtain ⟨N, hfinds⟩ := hfinds bumpMalloc fun _ => strayBlock
  obtain ⟨x, hrun, -⟩ := hfinds (max N (r + 1)) (le_max_left N (r + 1))
  obtain ⟨heap, hloop, hsearch⟩ := except_bind_ok hrun
  have hrounds : r < max N (r + 1) := le_max_right N (r + 1)
  obtain rfl := Except.ok.inj
    ((pdLoop_none hps hr (Nat.zero_add r) hrounds hempty _ _).symm.trans hloop)
  exact searchList_stray _ x hsearch

/-- With the candidate `0` the search returns the address of page `0`. -/
theorem lowestKept_of_finds (hzero : PdCandidate h p 0) (hfinds : FindsKernelPd h p) :
    LowestKept h p p.pageOffset := by
  have hmem : 0 ∈ candidatesFrom h p 0 r := (mem_candidates hr).mpr hzero
  obtain ⟨N, hfinds⟩ := hfinds bumpMalloc fun _ => strayBlock
  obtain ⟨x, hrun, hx⟩ := hfinds (max N (r + 1)) (le_max_left N (r + 1))
  rw [xaFindKernelPd_eq _ _ hps hr (le_max_right N (r + 1)) (List.ne_nil_of_mem hmem),
    if_pos hmem] at hrun
  rw [Except.ok.inj hrun]
  exact hx

theorem finds_of_lowestKept (hsome : ∃ a, PdCandidate h p a)
    (hzero : PdCandidate h p 0 → LowestKept h p p.pageOffset) : FindsKernelPd h p := by
  have hmem (a : U32) : a ∈ candidatesFrom h p 0 r ↔ PdCandidate h p a := mem_candidates hr
  have hsorted := candidates_sorted (h := h) hr
  have hkept (a : U32) : a ∈ keptOf h p (candidatesFrom h p 0 r) ↔ PdKept h p a :=
    mem_keptOf hmem (hsorted.imp BitVec.ne_of_lt)
  obtain ⟨a, ha⟩ := hsome
  have hne := List.ne_nil_of_mem ((hmem a).mpr ha)
  intro m blocks
  refine ⟨r + 1, fun fuel hfuel => ⟨_, xaFindKernelPd_eq m blocks hps hr hfuel hne, ?_⟩⟩
  split
  · rename_i hfirst
    exact hzero ((hmem 0).mp hfirst)
  · exact (lowestKept_iff hkept ((hsorted.filter _).filter _)).mpr rfl

end Search

theorem lowestKept_pageOffset_iff :
    LowestKept h p p.pageOffset ↔ PdKept h p 0 ∨ ∀ a, ¬PdKept h p a := by
  constructor
  · rintro (⟨a, ha, -, haddr⟩ | ⟨hnone, -⟩)
    · obtain rfl : a = 0 := add_eq_right.mp haddr.symm
      exact Or.inl ha
    · exact Or.inr hnone
  · rintro (hkeep | hnone)
    · exact Or.inl ⟨0, hkeep, fun b _ => BitVec.le_def.mpr (Nat.zero_le b.toNat),
        (zero_add p.pageOffset).symm⟩
    · exact Or.inr ⟨hnone, rfl⟩

/-- **When the search finds the lowest page to keep**: if there is a candidate, and page `0` is
no candidate, is to be kept itself, or nothing is to be kept. -/
theorem findsKernelPd_iff (h : Host) (p : XaParams) (hps : p.pageSize = 4096)
    (hsize : p.size.toNat % 4096 = 0) :
    FindsKernelPd h p ↔ (∃ a, PdCandidate h p a) ∧
      (PdCandidate h p 0 → PdKept h p 0 ∨ ∀ a, ¬PdKept h p a) := by
  obtain ⟨r, hr⟩ : ∃ r, p.size.toNat = 4096 * r := Nat.dvd_of_mod_eq_zero hsize
  rw [← lowestKept_pageOffset_iff]
  constructor
  · intro hfinds
    exact ⟨exists_candidate_of_finds hps hr hfinds,
      fun hzero => lowestKept_of_finds hps hr hzero hfinds⟩
  · rintro ⟨hsome, hzero⟩
    exact finds_of_lowestKept hps hr hsome hzero

/-- A guest of 16 megabytes. -/
def pdGuest (osType : OsType) (pageOffset : U32) : XaParams :=
  (imageState osType pageOffset 0 0 ⟨0, 0, 0, 0, 0, 0, 0⟩).toXaParams

def pdParams : XaParams := pdGuest .linux 0xC0000000

/-- Two page directories with the same entries for the kernel. -/
def twoPds : Words :=
  [(0x1C00, 0x1063), (0x1C04, 0x2063), (0x2C00, 0x1063), (0x2C04, 0x2063)]

def windowsPdParams : XaParams := pdGuest .windows 0x80000000

/-- Two page directories of a Windows guest. Each of them has an entry for itself. -/
def windowsPds : Words :=
  [(0x1800, 0x1063), (0x1804, 0x2063), (0x2800, 0x1063), (0x2804, 0x2063)]

/-- A page of a guest with two entries, which are valid. -/
theorem pdCandidate_image {osType : OsType} {pageOffset : U32} {words : Words} {a : U32} {j : Nat}
    (hpage : pdPage (imageHost words) (pdGuest osType pageOffset) a = some (imagePage words a))
    (haligned : a.toNat % 4096 = 0) (hbelow : a < 0x1000000) (hj : j + 2 ≤ 1024)
    (hkeys : words.all fun e => decide
      (4 * j ≤ (e.1 - a).toNat ∧ (e.1 - a).toNat < 4 * (j + 2) ∨ 4 * 1024 ≤ (e.1 - a).toNat))
    (hwords : (List.range' j 2).map (imageWord words a) = [0x1063, 0x2063]) :
    PdCandidate (imageHost words) (pdGuest osType pageOffset) a := by
  refine ⟨haligned, hbelow, ?_⟩
  have hnonzero : nonzero (pageWords (imagePage words a) 1024) = [0x1063, 0x2063] := by
    rw [nonzero_imagePage (by omega) hj (by decide) hkeys, hwords]
    rfl
  have hscore := xaKernelPdScore_eq 0x1000000 (imagePage words a) (n := 1024)
    (by decide) hnonzero
  rw [pdScore, hpage]
  show 0 < xaKernelPdScore _ (BitVec.ofNat 32 (4 * 1024)) 0x1000000
  rw [hscore]
  decide

/-- Page `0` of a guest is no page directory when it is empty. -/
theorem not_pdCandidate_empty {osType : OsType} {pageOffset : U32} {words : Words}
    (hkeys : words.all fun e => decide (4 * 1024 ≤ (e.1 - 0).toNat)) :
    ¬PdCandidate (imageHost words) (pdGuest osType pageOffset) 0 := by
  intro hzero
  have hscore : pdScore (imageHost words) (pdGuest osType pageOffset) 0 = 0 := by
    apply xaKernelPdScore_empty (imagePage words 0) (n := 1024) (by decide)
    refine nonzero_imagePage (j := 0) (c := 0) rfl (by decide) (by decide) ?_
    simpa using hkeys
  have hpos := hzero.score
  rw [hscore] at hpos
  exact absurd hpos (by decide)

/-- In both guests the lowest page to keep is found. In the one of Windows it has an entry for
itself. -/
theorem twoPds_finds : FindsKernelPd (imageHost twoPds) pdParams ∧
    PdKept (imageHost windowsPds) windowsPdParams 0x1000 ∧
    FindsKernelPd (imageHost windowsPds) windowsPdParams := by
  have hone : PdCandidate (imageHost windowsPds) windowsPdParams 0x1000 :=
    pdCandidate_image (j := 512) rfl rfl (by decide) (by decide) (by decide) (by decide)
  have htwo : PdCandidate (imageHost windowsPds) windowsPdParams 0x2000 :=
    pdCandidate_image (j := 512) rfl rfl (by decide) (by decide) (by decide) (by decide)
  refine ⟨?_, ⟨hone, by decide +kernel, ⟨0x2000, htwo, by decide, by decide +kernel⟩, fun _ => ?_⟩,
    ?_⟩
  · apply (findsKernelPd_iff (imageHost twoPds) pdParams rfl rfl).mpr
    refine ⟨⟨0x1000, ?_⟩, fun hzero => absurd hzero (not_pdCandidate_empty (by decide))⟩
    exact pdCandidate_image (j := 768) rfl rfl (by decide) (by decide) (by decide) (by decide)
  · have hentry : (0x1063 : U32) ∈ (imagePage windowsPds 0x1000).words windowsPdParams.pageSize :=
      List.mem_map.mpr ⟨512, List.mem_range.mpr (by decide), by decide⟩
    exact Int.natCast_pos.mpr (List.countP_pos_iff.mpr ⟨0x1063, hentry, by decide⟩)
  · apply (findsKernelPd_iff (imageHost windowsPds) windowsPdParams rfl rfl).mpr
    exact ⟨⟨0x1000, hone⟩, fun hzero => absurd hzero (not_pdCandidate_empty (by decide))⟩

/-- Page `0` looks like a page directory, too, but has no entries for the kernel. -/
def threePds : Words := (0, 0x1063) :: (4, 0x2063) :: twoPds

/-- The search stops at page `0` and returns it. -/
theorem threePds_not_finds : ¬FindsKernelPd (imageHost threePds) pdParams := by
  intro hfinds
  have hzero : PdCandidate (imageHost threePds) pdParams 0 :=
    pdCandidate_image (j := 0) rfl rfl (by decide) (by decide) (by decide) (by decide)
  have hone : PdCandidate (imageHost threePds) pdParams 0x1000 :=
    pdCandidate_image (j := 768) rfl rfl (by decide) (by decide) (by decide) (by decide)
  have htwo : PdCandidate (imageHost threePds) pdParams 0x2000 :=
    pdCandidate_image (j := 768) rfl rfl (by decide) (by decide) (by decide) (by decide)
  have hlow := lowestKept_of_finds (r := 4096) rfl rfl hzero hfinds
  rcases lowestKept_pageOffset_iff.mp hlow with hkeep | hnone
  · apply hkeep.checksum
    decide +kernel
  · apply hnone 0x1000
    refine ⟨hone, ?_, ⟨0x2000, htwo, ?_, ?_⟩, ?_⟩
    · decide +kernel
    · decide
    · decide +kernel
    · intro hwin
      cases hwin

end XenAccess
