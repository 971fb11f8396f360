import XenAccess.Cache.Sound
import XenAccess.Maps.Frames

/-!
# Mappings of page table walks

An entry of a page table is read at a multiple of its size, so a walk reads within the
pages it maps and unmaps each of them.
-/

namespace XenAccess.Traced

open Audit Prog

variable {h : Host} {p : XaParams} {s : XaState} {R : Rules XaState (Option SavedTable)}

/-! ## Readers of machine addresses -/

theorem xaReadLongMach_tracks (maddr : U32) :
    Tracks R s 0 (fun _ => 0) id ⟨True, ValueIn 4 (XenAccess.xaAccessMa h p maddr protRead), False⟩
      (xaReadLongMach h p maddr) (pure (XenAccess.xaReadLongMach h p maddr)) := by
  refine (xaAccessMa_tracks maddr protRead).skip_bind fun m hm => ?_
  rw [XenAccess.xaReadLongMach, ← hm]
  exact readValue_tracks 4 Access.long m

theorem xaReadLongLongMach_tracks (maddr : U32) :
    Tracks R s 0 (fun _ => 0) id ⟨True, ValueIn 8 (XenAccess.xaAccessMa h p maddr protRead), False⟩
      (xaReadLongLongMach h p maddr) (pure (XenAccess.xaReadLongLongMach h p maddr)) := by
  refine (xaAccessMa_tracks maddr protRead).skip_bind fun m hm => ?_
  rw [XenAccess.xaReadLongLongMach, ← hm]
  exact readValue_tracks 8 Access.longLong m

theorem xaAccessMa_offset (hps : p.pageSize = 4096) {maddr prot : U32} {a : Access}
    (ha : XenAccess.xaAccessMa h p maddr prot = some a) : a.offset.toNat = maddr.toNat % 4096 := by
  obtain ⟨memory, -, rfl⟩ := Option.map_eq_some_iff.mp ha
  rw [BitVec.and_comm]
  exact pageOff_toNat hps maddr

/-- A value whose address is a multiple of its size. -/
theorem valueIn_of_aligned (hps : p.pageSize = 4096) {n : Nat} (hn : n = 4 ∨ n = 8) {maddr : U32}
    (hmod : maddr.toNat % n = 0) (prot : U32) : ValueIn n (XenAccess.xaAccessMa h p maddr prot) := by
  intro a ha
  rw [InMapping, xaAccessMa_offset hps ha, xcPageSize]
  rcases hn with rfl | rfl
  · omega
  · omega

theorem xaReadLongMach_skip (hps : p.pageSize = 4096) {maddr : U32} (hmod : maddr.toNat % 4 = 0) :
    Tracks R s 0 (fun _ => 0) id .skip (xaReadLongMach h p maddr)
      (pure (XenAccess.xaReadLongMach h p maddr)) :=
  (xaReadLongMach_tracks maddr).congr fun _ => Verdict.eq_of_iff .rfl
    (iff_of_true (valueIn_of_aligned hps (.inl rfl) hmod _) trivial) .rfl

theorem xaReadLongLongMach_skip (hps : p.pageSize = 4096) {maddr : U32}
    (hmod : maddr.toNat % 8 = 0) :
    Tracks R s 0 (fun _ => 0) id .skip (xaReadLongLongMach h p maddr)
      (pure (XenAccess.xaReadLongLongMach h p maddr)) :=
  (xaReadLongLongMach_tracks maddr).congr fun _ => Verdict.eq_of_iff .rfl
    (iff_of_true (valueIn_of_aligned hps (.inr rfl) hmod _) trivial) .rfl

/-! ## Entries -/

theorem add_mod_of_mod {n : Nat} (hn : n ∣ 2 ^ 32) {a b : U32} (ha : a.toNat % n = 0)
    (hb : b.toNat % n = 0) : (a + b).toNat % n = 0 := by
  rw [BitVec.toNat_add, Nat.mod_mod_of_dvd _ hn, Nat.add_mod, ha, hb]
  exact Nat.zero_mod n

theorem mul_mod_of_dvd {n : Nat} (hn : n ∣ 2 ^ 32) (a : U32) {m : U32} (hm : n ∣ m.toNat) :
    (a * m).toNat % n = 0 := by
  rw [BitVec.toNat_mul, Nat.mod_mod_of_dvd _ hn]
  exact Nat.mod_eq_zero_of_dvd (Dvd.dvd.mul_left hm _)

theorem getPdpi_tracks (hps : p.pageSize = 4096) (vaddr cr3 : U32) :
    Tracks R s 0 (fun _ => 0) id .skip (getPdpi h p vaddr cr3)
      (pure (XenAccess.getPdpi h p vaddr cr3)) := by
  have hmod : (getPdptb cr3 + pdpiIndex vaddr).toNat % 8 = 0 := by
    refine add_mod_of_mod (by decide) ?_ (mul_mod_of_dvd (by decide) _ (by decide))
    rw [getPdptb, toNat_and_ffffffe0]
    omega
  refine (xaReadLongLongMach_skip hps hmod).skip_bind fun r hr => ?_
  rw [XenAccess.getPdpi, ← hr]
  exact return_tracks _

theorem pgdIndex_mod (p : XaParams) (vaddr : U32) : (pgdIndex p vaddr).toNat % 4 = 0 := by
  rw [pgdIndex]
  split
  · exact mul_mod_of_dvd (by decide) _ (by decide)
  · exact mul_mod_of_dvd (by decide) _ (by decide)

theorem pteIndex_mod (p : XaParams) (vaddr : U32) : (pteIndex p vaddr).toNat % 4 = 0 := by
  rw [pteIndex]
  split
  · exact mul_mod_of_dvd (by decide) _ (by decide)
  · exact mul_mod_of_dvd (by decide) _ (by decide)

theorem getPgdNopae_tracks (hps : p.pageSize = 4096) (vaddr pdpe : U32) :
    Tracks R s 0 (fun _ => 0) id .skip (getPgdNopae h p vaddr pdpe)
      (pure (XenAccess.getPgdNopae h p vaddr pdpe)) := by
  have hmod : (pdbaBaseNopae pdpe + pgdIndex p vaddr).toNat % 4 = 0 := by
    refine add_mod_of_mod (by decide) ?_ (pgdIndex_mod p vaddr)
    rw [pdbaBaseNopae, toNat_and_fffff000]
    omega
  refine (xaReadLongMach_skip hps hmod).skip_bind fun r hr => ?_
  rw [XenAccess.getPgdNopae, ← hr]
  exact return_tracks _

theorem getPteNopae_tracks (hps : p.pageSize = 4096) (vaddr pgd : U32) :
    Tracks R s 0 (fun _ => 0) id .skip (getPteNopae h p vaddr pgd)
      (pure (XenAccess.getPteNopae h p vaddr pgd)) := by
  have hmod : (ptbaBaseNopae pgd + pteIndex p vaddr).toNat % 4 = 0 := by
    refine add_mod_of_mod (by decide) ?_ (pteIndex_mod p vaddr)
    rw [ptbaBaseNopae, toNat_and_fffff000]
    omega
  refine (xaReadLongMach_skip hps hmod).skip_bind fun r hr => ?_
  rw [XenAccess.getPteNopae, ← hr]
  exact return_tracks _

/-- The address of an entry of a PAE table. -/
theorem paeEntry_mod {base : U64} {index : U32} (hbase : base.toNat % 8 = 0)
    (hindex : index.toNat % 8 = 0) :
    ((base + index.setWidth 64).setWidth 32 : U32).toNat % 8 = 0 := by
  rw [BitVec.toNat_setWidth, BitVec.toNat_add, BitVec.toNat_setWidth]
  omega

theorem paeBase_mod_eight (entry : U64) : (entry &&& 0xFFFFFF000).toNat % 8 = 0 := by
  rw [toNat_and_ffffff000]
  omega

theorem getPgdPae_tracks (hps : p.pageSize = 4096) (hpae : p.pae = true) (vaddr : U32)
    (pdpe : U64) :
    Tracks R s 0 (fun _ => 0) id .skip (getPgdPae h p vaddr pdpe)
      (pure (XenAccess.getPgdPae h p vaddr pdpe)) := by
  have hindex : (pgdIndex p vaddr).toNat % 8 = 0 := by
    rw [pgdIndex, if_neg (by simp [hpae])]
    exact mul_mod_of_dvd (by decide) _ (by decide)
  refine (xaReadLongLongMach_skip hps (paeEntry_mod (paeBase_mod_eight pdpe) hindex)).skip_bind
    fun r hr => ?_
  rw [XenAccess.getPgdPae, pdbaBasePae, ← hr]
  exact return_tracks _

theorem getPtePae_tracks (hps : p.pageSize = 4096) (hpae : p.pae = true) (vaddr : U32)
    (pgd : U64) :
    Tracks R s 0 (fun _ => 0) id .skip (getPtePae h p vaddr pgd)
      (pure (XenAccess.getPtePae h p vaddr pgd)) := by
  have hindex : (pteIndex p vaddr).toNat % 8 = 0 := by
    rw [pteIndex, if_neg (by simp [hpae])]
    exact mul_mod_of_dvd (by decide) _ (by decide)
  refine (xaReadLongLongMach_skip hps (paeEntry_mod (paeBase_mod_eight pgd) hindex)).skip_bind
    fun r hr => ?_
  rw [XenAccess.getPtePae, ptbaBasePae, ← hr]
  exact return_tracks _

/-! ## Walks -/

theorem v2pNopae_tracks (hps : p.pageSize = 4096) (cr3 vaddr : U32) :
    Tracks R s 0 (fun _ => 0) id .skip (v2pNopae h p cr3 vaddr)
      (pure (XenAccess.v2pNopae h p cr3 vaddr)) := by
  refine (getPgdNopae_tracks hps vaddr cr3).skip_bind fun pgd hpgd => ?_
  rw [XenAccess.v2pNopae, v2pNopaeBody, ← hpgd]
  simp only [id]
  split
  · split
    · exact return_tracks _
    · refine (getPteNopae_tracks hps vaddr pgd).skip_bind fun pte hpte => ?_
      rw [← hpte]
      exact return_tracks _
  · exact return_tracks _

theorem v2pPae_tracks (hps : p.pageSize = 4096) (hpae : p.pae = true) (cr3 vaddr : U32) :
    Tracks R s 0 (fun _ => 0) id .skip (v2pPae h p cr3 vaddr)
      (pure (XenAccess.v2pPae h p cr3 vaddr)) := by
  refine (getPdpi_tracks hps vaddr cr3).skip_bind fun pdpe hpdpe => ?_
  rw [XenAccess.v2pPae, v2pPaeBody, ← hpdpe]
  simp only [id]
  split
  · exact return_tracks _
  · refine (getPgdPae_tracks hps hpae vaddr pdpe).skip_bind fun pgd hpgd => ?_
    rw [← hpgd]
    simp only [id]
    split
    · split
      · exact return_tracks _
      · refine (getPtePae_tracks hps hpae vaddr pgd).skip_bind fun pte hpte => ?_
        rw [← hpte]
        exact return_tracks _
    · exact return_tracks _

theorem xaPagetableLookup_tracks (hps : p.pageSize = 4096) (cr3 vaddr : U32) :
    Tracks R s 0 (fun _ => 0) id .skip (xaPagetableLookup h p cr3 vaddr)
      (pure (XenAccess.xaPagetableLookup h p cr3 vaddr)) := by
  rw [xaPagetableLookup, XenAccess.xaPagetableLookup]
  split
  · rename_i hpae
    exact v2pPae_tracks hps hpae cr3 vaddr
  · exact v2pNopae_tracks hps cr3 vaddr

theorem xaTranslateKv2p_tracks (hps : p.pageSize = 4096) (virtAddress : U32) :
    Tracks R s 0 (fun _ => 0) id .skip (xaTranslateKv2p h p virtAddress)
      (pure (XenAccess.xaTranslateKv2p h p virtAddress)) :=
  xaPagetableLookup_tracks hps _ virtAddress

end XenAccess.Traced
