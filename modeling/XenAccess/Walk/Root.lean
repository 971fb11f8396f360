import XenAccess.Cache.Transparency
import XenAccess.Walk.Pae

/-!
# The root of a kernel translation with PAE

With PAE, CR3 holds the address of a page directory pointer table, which is aligned to 32
bytes. `get_pdptb` clears the low 5 bits accordingly, but `xa_current_cr3` has cleared the
low 12 bits before. The two agree in every guest for the values of CR3 whose table starts a
page. For the others, `rootHost` is a guest in which they do not.
-/

namespace XenAccess

open Prog

/-- The table that CR3 points to. -/
def rawRoot (cr3 : U32) : U32 := cr3 &&& 0xFFFFFFE0

/-- A live Xen domain with PAE whose CR3 has the given value. -/
structure PaeGuest (h : Host) (s : XaState) (cr3 : U32) : Prop where
  mode : s.mode = .xen
  pae : s.pae = true
  pageSize : s.pageSize = 4096
  pageShift : s.pageShift = 12
  context : ∃ ctxt, h.xcVcpuGetcontext = some ctxt ∧ ctxt.ctrlreg3 = cr3

/-- Kernel addresses are translated and accessed by the table that CR3 points to, after any
sequence of calls. -/
structure WalksRawRoot (h : Host) (fuel : Nat) (s₀ : XaState) (cr3 : U32) : Prop where
  translate : ∀ v,
    xaTranslateKv2p h s₀.toXaParams v = xaPagetableLookup h s₀.toXaParams (rawRoot cr3) v
  access : ∀ calls s, runCalls h fuel calls s₀.clear = .ok ((), s) → ∀ v prot,
    ∃ s', xaAccessKernelVa h v prot s = .ok (accessTranslated h s₀.toXaParams
      (xaPagetableLookup h s₀.toXaParams (rawRoot cr3) v) prot, s')

/-! ## Aligned tables -/

theorem toNat_and_fe0 (x : U32) : (x &&& 0xFE0).toNat = x.toNat / 32 % 128 * 32 := by
  simpa using Bits.toNat_and_field x (k := 5) (n := 12) (by omega) (by omega)

/-- The two masks of the source agree on the tables that start a page. -/
theorem currentCr3_eq_rawRoot_iff (cr3 : U32) :
    cr3 &&& 0xFFFFF000 = rawRoot cr3 ↔ cr3 &&& 0xFE0 = 0 := by
  have hlow := toNat_and_fe0 cr3
  have hpage := toNat_and_fffff000 cr3
  have hraw : (rawRoot cr3).toNat = cr3.toNat / 32 * 32 := toNat_and_ffffffe0 cr3
  constructor
  · intro heq
    have := congrArg BitVec.toNat heq
    apply BitVec.eq_of_toNat_eq
    rw [hlow]
    show _ = 0
    omega
  · intro hzero
    have := congrArg BitVec.toNat hzero
    rw [hlow] at this
    have : cr3.toNat / 32 % 128 * 32 = 0 := this
    apply BitVec.eq_of_toNat_eq
    omega

theorem xaTranslateKv2p_xen {h : Host} {s : XaState} {cr3 : U32} (hg : PaeGuest h s cr3)
    (v : U32) :
    xaTranslateKv2p h s.toXaParams v =
      xaPagetableLookup h s.toXaParams (cr3 &&& 0xFFFFF000) v := by
  obtain ⟨ctxt, hctxt, rfl⟩ := hg.context
  simp only [xaTranslateKv2p, xaCurrentCr3, hg.mode, hctxt]

theorem walksRawRoot_of_aligned {h : Host} {fuel : Nat} {s₀ : XaState} {cr3 : U32}
    (hg : PaeGuest h s₀ cr3) (haligned : cr3 &&& 0xFE0 = 0) : WalksRawRoot h fuel s₀ cr3 := by
  have htrans (v : U32) : xaTranslateKv2p h s₀.toXaParams v =
      xaPagetableLookup h s₀.toXaParams (rawRoot cr3) v := by
    rw [xaTranslateKv2p_xen hg, (currentCr3_eq_rawRoot_iff cr3).mpr haligned]
  refine ⟨htrans, fun calls s hrun v prot => ?_⟩
  have hs := runCalls_keeps hg.pageSize calls _ _ _ (sound_clear s₀) hrun
  obtain ⟨s', hacc, -⟩ := follows_exists (xaAccessKernelVa_follows hg.pageSize hs v prot) rfl
  refine ⟨s', hacc.trans ?_⟩
  rw [refKernelVa, htrans]

/-! ## Tables inside a page -/

/-- A page directory that does not share its frame with the table at CR3. -/
def rootDirectory (cr3 : U32) : U32 := if cr3 &&& 0xFFFFF000 = 0x1000 then 0x2000 else 0x1000

/-- A memory with a table at CR3 that maps a large page at address `0`, and nothing else. -/
def rootWords (cr3 : U32) : Words :=
  [(rawRoot cr3, rootDirectory cr3 + 1), (rootDirectory cr3, 0x00200083)]

def rootHost (cr3 : U32) : Host :=
  { imageHost (rootWords cr3) with xcVcpuGetcontext := some ⟨0x80000001, cr3, 0x20⟩ }

def rootState : XaState :=
  { zeroState 0 with mode := .xen, pae := true, pageShift := 12, pageSize := 4096 }

theorem paeGuest_rootHost (cr3 : U32) : PaeGuest (rootHost cr3) rootState cr3 :=
  ⟨rfl, rfl, rfl, rfl, _, rfl, rfl⟩

/-- The memory of the guest, by the words of its table. -/
theorem xenMemory_rootHost (cr3 a : U32) (haligned : a.toNat % 8 = 0) :
    xenMemory (rootHost cr3) a.toNat =
      some (((rootWords cr3).lookup (a + 4)).getD 0 ++ ((rootWords cr3).lookup a).getD 0) := by
  have hbase : BitVec.ofNat 32 (a.toNat / 4096) <<< 12 + BitVec.ofNat 32 (a.toNat % 4096) = a := by
    apply BitVec.eq_of_toNat_eq
    simp [Nat.shiftLeft_eq]
    omega
  have hnext : BitVec.ofNat 32 (a.toNat / 4096) <<< 12 +
      (BitVec.ofNat 32 (a.toNat % 4096) + 4) = a + 4 := by
    rw [← BitVec.add_assoc, hbase]
  have hlow := imagePage_u32 (rootWords cr3) (BitVec.ofNat 32 (a.toNat / 4096) <<< 12)
    (BitVec.ofNat 32 (a.toNat % 4096)) (by rw [hbase]; omega)
  have hhigh := imagePage_u32 (rootWords cr3) (BitVec.ofNat 32 (a.toNat / 4096) <<< 12)
    (BitVec.ofNat 32 (a.toNat % 4096) + 4) (by
      rw [hnext, BitVec.toNat_add]
      show (a.toNat + 4) % 2 ^ 32 % 4 = 0
      omega)
  rw [hbase] at hlow
  rw [hnext] at hhigh
  show some (Page.u64 _ _) = _
  rw [Page.u64, hlow, hhigh]

theorem rawRoot_toNat (cr3 : U32) : (rawRoot cr3).toNat = cr3.toNat / 32 * 32 :=
  toNat_and_ffffffe0 cr3

theorem rootWords_lookup_none {cr3 a : U32} (hroot : a.toNat ≠ cr3.toNat / 32 * 32)
    (hdir : a.toNat ≠ (rootDirectory cr3).toNat) : (rootWords cr3).lookup a = none := by
  have h1 : (a == rawRoot cr3) = false := by
    rw [beq_eq_false_iff_ne]
    rintro rfl
    exact hroot (rawRoot_toNat cr3)
  have h2 : (a == rootDirectory cr3) = false := by
    rw [beq_eq_false_iff_ne]
    rintro rfl
    exact hdir rfl
  simp only [rootWords, List.lookup_cons, List.lookup_nil, h1, h2]

theorem rootDirectory_cases (cr3 : U32) :
    (rootDirectory cr3).toNat ≠ cr3.toNat / 4096 * 4096 ∧
      ((rootDirectory cr3).toNat = 0x1000 ∨ (rootDirectory cr3).toNat = 0x2000) := by
  rw [← toNat_and_fffff000, rootDirectory]
  split
  · rename_i hpage
    rw [hpage]
    decide
  · rename_i hpage
    exact ⟨fun heq => hpage (BitVec.eq_of_toNat_eq heq.symm), Or.inl rfl⟩

/-- A table inside a page does not start where the page does. -/
theorem rawRoot_ne_page {cr3 : U32} (hne : cr3 &&& 0xFE0 ≠ 0) :
    cr3.toNat / 32 * 32 ≠ cr3.toNat / 4096 * 4096 := by
  intro heq
  apply hne
  apply BitVec.eq_of_toNat_eq
  rw [toNat_and_fe0]
  show _ = 0
  omega

theorem toNat_add_four {a : U32} (ha : a.toNat % 8 = 0) : (a + 4).toNat = a.toNat + 4 := by
  rw [BitVec.toNat_add]
  show (a.toNat + 4) % 2 ^ 32 = _
  omega

/-- In the table that the source walks, nothing is mapped. -/
theorem rootHost_lookup_page {cr3 : U32} (hne : cr3 &&& 0xFE0 ≠ 0) :
    xaPagetableLookup (rootHost cr3) rootState.toXaParams (cr3 &&& 0xFFFFF000) 0 = 0 := by
  have hpage := toNat_and_fffff000 cr3
  have hroot := rawRoot_ne_page hne
  obtain ⟨hdir, hcases⟩ := rootDirectory_cases cr3
  have hadd : ((cr3 &&& 0xFFFFF000) + 4).toNat = _ := toNat_add_four (by omega)
  have hmem := xenMemory_rootHost cr3 (cr3 &&& 0xFFFFF000) (by omega)
  rw [rootWords_lookup_none (by omega) (by omega), rootWords_lookup_none (by omega) (by omega)]
    at hmem
  have hbase : (cr3 &&& 0xFFFFF000).toNat / 32 * 32 = (cr3 &&& 0xFFFFF000).toNat := by omega
  have hread : xenMemory (rootHost cr3) ((cr3 &&& 0xFFFFF000).toNat / 32 * 32 + 0 / 2 ^ 30 * 8) =
      some ((0 : U32) ++ (0 : U32)) := by
    rw [Nat.zero_div, Nat.zero_mul, Nat.add_zero, hbase]
    exact hmem
  have hwalk := paeWalk_absent hread (by decide)
  have hlow : ∀ t ∈ [(cr3 &&& 0xFFFFF000).toNat / 32 * 32], t < 2 ^ 32 := by
    intro t ht
    rw [List.mem_singleton.mp ht, hbase]
    exact BitVec.isLt _
  exact xaPagetableLookup_eq_paeWalk (v := 0) (guestMemory_xen rfl rfl rfl) rfl hwalk hlow

/-- The table that CR3 points to maps address `0`. -/
theorem rootHost_lookup_raw {cr3 : U32} (hne : cr3 &&& 0xFE0 ≠ 0) :
    xaPagetableLookup (rootHost cr3) rootState.toXaParams (rawRoot cr3) 0 = 0x200000 := by
  have hraw := rawRoot_toNat cr3
  have hroot := rawRoot_ne_page hne
  obtain ⟨-, hcases⟩ := rootDirectory_cases cr3
  have hfirst : (rootWords cr3).lookup (rawRoot cr3) = some (rootDirectory cr3 + 1) := by
    simp [rootWords]
  have hsecond : (rootWords cr3).lookup (rootDirectory cr3) = some 0x00200083 := by
    have hdir : (rootDirectory cr3 == rawRoot cr3) = false := by
      rw [beq_eq_false_iff_ne]
      intro heq
      have := congrArg BitVec.toNat heq
      omega
    simp only [rootWords, List.lookup_cons, hdir, beq_self_eq_true]
  have hpdpe := xenMemory_rootHost cr3 (rawRoot cr3) (by omega)
  rw [hfirst, rootWords_lookup_none (by rw [toNat_add_four (by omega)]; omega)
    (by rw [toNat_add_four (by omega)]; omega)] at hpdpe
  have hpde := xenMemory_rootHost cr3 (rootDirectory cr3) (by omega)
  rw [hsecond, rootWords_lookup_none (by rw [toNat_add_four (by omega)]; omega)
    (by rw [toNat_add_four (by omega)]; omega)] at hpde
  have hbase : (rawRoot cr3).toNat / 32 * 32 = (rawRoot cr3).toNat := by omega
  have hentry : ∀ g : U32, g = 0x1000 ∨ g = 0x2000 →
      ((0 : U32) ++ (g + 1) : U64).getLsbD 0 = true ∧
        paeBase ((0 : U32) ++ (g + 1)) = g.toNat := by
    rintro g (rfl | rfl)
    · decide
    · decide
  obtain ⟨hpresent, hdir⟩ := hentry (rootDirectory cr3)
    (hcases.imp (fun hd => BitVec.eq_of_toNat_eq hd) fun hd => BitVec.eq_of_toNat_eq hd)
  have hread : xenMemory (rootHost cr3) ((rawRoot cr3).toNat / 32 * 32 + 0 / 2 ^ 30 * 8) =
      some ((0 : U32) ++ (rootDirectory cr3 + 1)) := by
    rw [Nat.zero_div, Nat.zero_mul, Nat.add_zero, hbase]
    exact hpdpe
  have hread' : xenMemory (rootHost cr3)
      (paeBase ((0 : U32) ++ (rootDirectory cr3 + 1)) + 0 / 2 ^ 21 % 512 * 8) =
      some ((0 : U32) ++ (0x00200083 : U32)) := by
    rw [Nat.zero_div, Nat.zero_mod, Nat.zero_mul, Nat.add_zero, hdir]
    exact hpde
  have hwalk := paeWalk_large hread hpresent hread' (by decide) (by decide)
  have hlow : ∀ t ∈ [(rawRoot cr3).toNat / 32 * 32,
      paeBase ((0 : U32) ++ (rootDirectory cr3 + 1))], t < 2 ^ 32 := by
    intro t ht
    rcases List.mem_pair.mp ht with rfl | rfl
    · rw [hbase]
      exact BitVec.isLt _
    · rw [hdir]
      exact BitVec.isLt _
  exact xaPagetableLookup_eq_paeWalk (v := 0) (guestMemory_xen rfl rfl rfl) rfl hwalk hlow

/-- **The root of kernel translations.** All guests with a value of CR3 are walked from the
table it points to exactly when that table starts a page. -/
theorem walksRawRoot_iff (cr3 : U32) :
    (∀ h fuel s₀, PaeGuest h s₀ cr3 → WalksRawRoot h fuel s₀ cr3) ↔ cr3 &&& 0xFE0 = 0 := by
  constructor
  · intro hall
    by_contra hne
    have htrans := (hall _ 0 _ (paeGuest_rootHost cr3)).translate 0
    rw [xaTranslateKv2p_xen (paeGuest_rootHost cr3), rootHost_lookup_page hne,
      rootHost_lookup_raw hne] at htrans
    exact absurd htrans (by decide)
  · intro haligned h fuel s₀ hg
    exact walksRawRoot_of_aligned hg haligned

/-- A guest whose table starts 32 bytes into its page. -/
theorem rootHost_not_walksRawRoot :
    PaeGuest (rootHost 0x3020) rootState 0x3020 ∧
      ¬ WalksRawRoot (rootHost 0x3020) 0 rootState 0x3020 := by
  refine ⟨paeGuest_rootHost 0x3020, fun hwalks => ?_⟩
  have htrans := hwalks.translate 0
  exact absurd htrans (by decide)

end XenAccess
