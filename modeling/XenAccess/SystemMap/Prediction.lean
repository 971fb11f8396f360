import XenAccess.Model.Symbols

/-!
# The predicted name of the System.map

`linux_predict_sysmap_name` is to replace "vmlinu" and the character behind it in the path of
the kernel by "System.map". Its loop goes on for the length of the buffer, which is longer than
the string, and takes what follows seven characters behind the place it finds. So it leaves the
string unless "vmlinu" stands in it with a character behind; then it stays in its memory and
returns the right name.
-/

namespace XenAccess

open CBuffer Prog

variable {pre suf kernel sysmap : List U8} {k n : Nat} {c : U8}

/-- A path with its first "vmlinu" and the character behind it replaced. -/
def substituted : CStr → CStr
  | [] => []
  | c :: path =>
    if cstr "vmlinu" <+: c :: path then cstr "System.map" ++ path.drop 6
    else c :: substituted path

/-- "vmlinu" stands in the path, with a character behind it. -/
def NamesVmlinu (path : CStr) : Prop := cstr "vmlinu" <:+: path.dropLast

instance (path : CStr) : Decidable (NamesVmlinu path) :=
  inferInstanceAs (Decidable (_ <:+: _))

theorem length_le_substituted (path : CStr) : path.length ≤ (substituted path).length := by
  induction path with
  | nil => exact Nat.le_refl 0
  | cons c path ih =>
    rw [substituted]
    split
    · rw [List.length_append, List.length_drop, List.length_cons]
      show path.length + 1 ≤ 10 + (path.length - 6)
      omega
    · exact Nat.succ_le_succ ih

theorem zero_notMem_substituted {path : CStr} (hpath : 0 ∉ path) : 0 ∉ substituted path := by
  induction path with
  | nil => exact hpath
  | cons c path ih =>
    obtain ⟨hc, hrest⟩ := not_or.mp (mt List.mem_cons.mpr hpath)
    rw [substituted]
    split
    · rw [List.mem_append]
      rintro (hmem | hmem)
      · exact absurd hmem (by decide)
      · exact hrest (List.mem_of_mem_drop hmem)
    · rw [List.mem_cons]
      exact not_or.mpr ⟨hc, ih hrest⟩

/-! ## Where "vmlinu" stands -/

theorem not_namesVmlinu_nil : ¬NamesVmlinu [] := by decide

theorem namesVmlinu_length {path : CStr} (hnames : NamesVmlinu path) : 6 < path.length := by
  have hle : 6 ≤ path.dropLast.length := List.IsInfix.length_le hnames
  rw [List.length_dropLast] at hle
  omega

theorem namesVmlinu_cons : NamesVmlinu (c :: suf) ↔
    cstr "vmlinu" <+: c :: suf ∧ 6 ≤ suf.length ∨ NamesVmlinu suf := by
  cases suf with
  | nil =>
    have hnone : ¬NamesVmlinu [c] := not_namesVmlinu_nil
    apply iff_of_false hnone
    rintro (⟨-, hlen⟩ | hnil)
    · exact absurd hlen (by decide)
    · exact not_namesVmlinu_nil hnil
  | cons d rest =>
    have hlast : (c :: d :: rest).dropLast <+: c :: d :: rest := List.dropLast_prefix _
    have hlength : (c :: d :: rest).dropLast.length = (d :: rest).length := List.length_dropLast
    have hhead : cstr "vmlinu" <+: (c :: d :: rest).dropLast ↔
        cstr "vmlinu" <+: c :: d :: rest ∧ 6 ≤ (d :: rest).length := by
      rw [← hlength]
      constructor
      · intro hstarts
        exact ⟨hstarts.trans hlast, hstarts.length_le⟩
      · rintro ⟨hstarts, hlen⟩
        exact List.prefix_of_prefix_length_le hstarts hlast hlen
    show cstr "vmlinu" <:+: c :: (d :: rest).dropLast ↔ _
    rw [List.infix_cons_iff]
    exact or_congr_left hhead

/-! ## The loop -/

/-- A round that finds "vmlinu". -/
theorem predictLoop_hit (hstarts : cstr "vmlinu" <+: suf) (n : Nat) (sysmap : List U8) :
    predictLoop (pre ++ (suf ++ [0])) (n + 1) pre.length sysmap =
      strcat sysmap (cstr "System.map" ++ [0]) >>= fun sysmap =>
        strcat sysmap ((suf ++ [0]).drop 7) := by
  rw [predictLoop, List.drop_left, strncmp_append (by decide), decide_eq_true hstarts,
    List.drop_length_add_append]
  rfl

/-- A round that copies a character. -/
theorem predictLoop_miss (hstarts : ¬cstr "vmlinu" <+: c :: suf) (n k : Nat) :
    predictLoop (pre ++ (c :: suf ++ [0])) (n + 1) pre.length (pre ++ List.replicate (k + 1) 0) =
      predictLoop (pre ++ [c] ++ (suf ++ [0])) n (pre ++ [c]).length
        (pre ++ [c] ++ List.replicate k 0) := by
  rw [predictLoop, List.drop_left, strncmp_append (by decide), decide_eq_false hstarts,
    List.replicate_succ]
  show (write (pre ++ 0 :: List.replicate k 0) pre.length c >>= _) = _
  rw [write_append, List.length_append, List.append_cons pre c (List.replicate k 0),
    List.cons_append, List.append_cons pre c (suf ++ [0])]
  rfl

/-- The loop on a string that has "vmlinu" with a character behind it. -/
theorem predictLoop_names (pre : List U8) (hzero : 0 ∉ pre ++ suf) (hnames : NamesVmlinu suf)
    (hrounds : suf.length ≤ n) :
    predictLoop (pre ++ (suf ++ [0])) n pre.length (pre ++ List.replicate (suf.length + 4) 0) =
      .ok (pre ++ substituted suf ++ [0]) := by
  induction suf generalizing pre n with
  | nil => exact absurd hnames not_namesVmlinu_nil
  | cons c suf ih =>
    obtain ⟨n, rfl⟩ := Nat.exists_eq_succ_of_ne_zero (Nat.ne_of_gt (Nat.zero_lt_of_lt hrounds))
    by_cases hstarts : cstr "vmlinu" <+: c :: suf
    · have hlen : 6 ≤ suf.length := Nat.le_of_lt_succ (namesVmlinu_length hnames)
      have hdrop : (c :: suf ++ [0]).drop 7 = suf.drop 6 ++ 0 :: [] :=
        List.drop_append_of_le_length (Nat.succ_le_succ hlen)
      obtain ⟨hpre, hsuf⟩ := not_or.mp (mt List.mem_append.mpr hzero)
      have hname : 0 ∉ pre ++ cstr "System.map" := by
        rw [List.mem_append]
        exact not_or.mpr ⟨hpre, by decide⟩
      have htail : 0 ∉ suf.drop 6 := fun hmem =>
        hsuf (List.mem_cons_of_mem c (List.mem_of_mem_drop hmem))
      have hroom : (cstr "System.map").length < (c :: suf).length + 4 := by
        show 10 < suf.length + 1 + 4
        omega
      have hleft : (c :: suf).length + 4 - (cstr "System.map").length = suf.length - 6 + 1 := by
        show suf.length + 1 + 4 - 10 = _
        omega
      rw [predictLoop_hit hstarts, substituted, if_pos hstarts,
        strcat_eq_strcpy hpre (Nat.zero_lt_of_lt hroom), strcpy_append (by decide) hroom, hleft]
      show strcat _ _ = _
      rw [hdrop, strcat_eq_strcpy hname (Nat.succ_pos _),
        strcpy_append htail (by rw [List.length_drop]; exact Nat.lt_succ_self _),
        List.length_drop, Nat.succ_sub (Nat.le_refl _), Nat.sub_self, List.append_assoc pre]
      rfl
    · have hrest : NamesVmlinu suf :=
        (namesVmlinu_cons.mp hnames).resolve_left fun hfirst => hstarts hfirst.1
      rw [List.append_cons] at hzero
      rw [substituted, if_neg hstarts, List.length_cons, Nat.add_right_comm,
        predictLoop_miss hstarts, ih _ hzero hrest (Nat.le_of_succ_le_succ hrounds),
        List.append_cons pre c (substituted suf)]

/-- The loop on any other string reads or writes too far. -/
theorem predictLoop_stray (pre : List U8) (hzero : 0 ∉ pre ++ suf) (hnames : ¬NamesVmlinu suf)
    (hrounds : suf.length + 2 ≤ n) :
    ∃ e, predictLoop (pre ++ (suf ++ [0])) n pre.length
      (pre ++ List.replicate (suf.length + 4) 0) = .error e := by
  induction suf generalizing pre n with
  | nil =>
    -- the terminator is copied, and the next round reads behind it
    obtain ⟨n, rfl⟩ := Nat.exists_eq_add_of_le' (show 2 ≤ n from hrounds)
    refine ⟨.strayRead, ?_⟩
    rw [predictLoop, List.drop_left, strncmp_append (by decide)]
    show (write (pre ++ 0 :: List.replicate 3 0) pre.length 0 >>= _) = _
    rw [write_append]
    show predictLoop (pre ++ [0]) (n + 1) (pre.length + 1) _ = _
    rw [predictLoop, List.drop_of_length_le (by rw [List.length_append]; rfl),
      strncmp_nil (by decide)]
    rfl
  | cons c suf ih =>
    obtain ⟨n, rfl⟩ := Nat.exists_eq_succ_of_ne_zero (Nat.ne_of_gt (Nat.zero_lt_of_lt hrounds))
    by_cases hstarts : cstr "vmlinu" <+: c :: suf
    · -- "vmlinu" is at the very end, and the buffer is one character too short
      have hlen : suf.length < 6 := by
        by_contra hge
        exact hnames (namesVmlinu_cons.mpr (Or.inl ⟨hstarts, Nat.le_of_not_lt hge⟩))
      have hfull : (c :: suf).length + 4 ≤ (cstr "System.map").length := by
        show suf.length + 1 + 4 ≤ 10
        omega
      obtain ⟨hpre, -⟩ := not_or.mp (mt List.mem_append.mpr hzero)
      refine ⟨.strayWrite, ?_⟩
      rw [predictLoop_hit hstarts, strcat_eq_strcpy hpre (Nat.succ_pos _),
        strcpy_full (by decide) hfull]
      rfl
    · have hrest : ¬NamesVmlinu suf := fun hmem => hnames (namesVmlinu_cons.mpr (Or.inr hmem))
      rw [List.append_cons] at hzero
      rw [List.length_cons, Nat.add_right_comm, predictLoop_miss hstarts]
      exact ih _ hzero hrest (Nat.le_of_succ_le_succ hrounds)

/-- The buffer keeps its length. -/
theorem length_predictLoop {memory sysmap' : List U8} {i : Nat}
    (hrun : predictLoop memory n i sysmap = .ok sysmap') : sysmap'.length = sysmap.length := by
  induction n generalizing i sysmap with
  | zero => rw [Except.ok.inj hrun]
  | succ n ih =>
    rw [predictLoop] at hrun
    obtain ⟨found, -, hrun⟩ := except_bind_ok hrun
    split at hrun
    · obtain ⟨sysmap₁, hname, hrun⟩ := except_bind_ok hrun
      rw [length_strcat hrun, length_strcat hname]
    · obtain ⟨c, -, hrun⟩ := except_bind_ok hrun
      obtain ⟨sysmap₁, hwrite, hrun⟩ := except_bind_ok hrun
      rw [ih hrun, length_write hwrite]

/-! ## The prediction -/

/-- The function stays in its memory and, but for the HVM loader, returns a buffer with the
substituted path. -/
structure PredictsSysmap (kernel : CStr) : Prop where
  inBounds : ∃ r, linuxPredictSysmapBuffer (some kernel) = .ok r
  name : kernel ≠ hvmloader → ∃ sysmap,
    linuxPredictSysmapBuffer (some kernel) = .ok (some sysmap) ∧
      substituted kernel ++ [0] <+: sysmap

theorem linuxPredictSysmapBuffer_eq (hkernel : kernel ≠ hvmloader) :
    linuxPredictSysmapBuffer (some kernel) =
      predictLoop ([] ++ (kernel ++ [0])) (BitVec.ofNat 32 (kernel.length + 4)).toInt.toNat
        ([] : List U8).length
        ([] ++ List.replicate (BitVec.ofNat 32 (kernel.length + 4)).toNat 0) >>= fun sysmap =>
          .ok (some sysmap) := by
  rw [linuxPredictSysmapBuffer]
  dsimp only
  rw [if_neg hkernel]
  rfl

/-- The loop has a round for each character of the buffer. -/
theorem linuxPredictSysmapBuffer_short (hkernel : kernel ≠ hvmloader)
    (hshort : kernel.length + 4 < 2 ^ 31) :
    linuxPredictSysmapBuffer (some kernel) =
      predictLoop ([] ++ (kernel ++ [0])) (kernel.length + 4) ([] : List U8).length
        ([] ++ List.replicate (kernel.length + 4) 0) >>= fun sysmap => .ok (some sysmap) := by
  have hnat : (BitVec.ofNat 32 (kernel.length + 4)).toNat = kernel.length + 4 := by
    rw [BitVec.toNat_ofNat, Nat.mod_eq_of_lt (by omega)]
  have hint : (BitVec.ofNat 32 (kernel.length + 4)).toInt.toNat = kernel.length + 4 := by
    rw [BitVec.toInt_eq_toNat_of_lt (by omega), hnat]
    rfl
  rw [linuxPredictSysmapBuffer_eq hkernel, hnat, hint]

/-- A string whose buffer has no length that an `int` can hold. -/
theorem not_predicts_of_long (hkernel : kernel ≠ hvmloader) (hzero : 0 ∉ kernel)
    (hlong : 2 ^ 31 ≤ kernel.length + 4) : ¬PredictsSysmap kernel := by
  intro hpredicts
  obtain ⟨sysmap, hrun, hname⟩ := hpredicts.name hkernel
  rw [linuxPredictSysmapBuffer_eq hkernel] at hrun
  obtain ⟨sysmap', hloop, hsome⟩ := except_bind_ok hrun
  obtain rfl : sysmap' = sysmap := Option.some.inj (Except.ok.inj hsome)
  have hfits := hname.length_le
  rw [length_predictLoop hloop, List.nil_append, List.length_replicate, List.length_append,
    List.length_singleton] at hfits
  have hle := length_le_substituted kernel
  have hlength : (BitVec.ofNat 32 (kernel.length + 4)).toNat = (kernel.length + 4) % 2 ^ 32 :=
    BitVec.toNat_ofNat _ _
  -- the length is negative and no round is made: the buffer is still cleared
  have hrounds : (BitVec.ofNat 32 (kernel.length + 4)).toInt.toNat = 0 := by
    rw [BitVec.toInt_eq_toNat_cond, if_neg (by omega)]
    omega
  rw [hrounds] at hloop
  rw [← Except.ok.inj hloop, List.nil_append] at hname
  obtain ⟨c, hc⟩ := List.exists_mem_of_length_pos (l := substituted kernel) (by omega)
  have hcleared : c = 0 :=
    List.eq_of_mem_replicate (hname.subset (List.mem_append_left [0] hc))
  exact zero_notMem_substituted hzero (hcleared ▸ hc)

theorem predicts_of_names (hkernel : kernel ≠ hvmloader) (hzero : 0 ∉ kernel)
    (hshort : kernel.length + 4 < 2 ^ 31) (hnames : NamesVmlinu kernel) :
    PredictsSysmap kernel := by
  have hrun : linuxPredictSysmapBuffer (some kernel) = .ok (some (substituted kernel ++ [0])) := by
    rw [linuxPredictSysmapBuffer_short hkernel hshort, except_bind_of_ok
      (predictLoop_names [] hzero hnames (Nat.le_add_right _ _))]
    rfl
  exact ⟨⟨_, hrun⟩, fun _ => ⟨_, hrun, List.prefix_refl _⟩⟩

theorem not_predicts_of_stray (hkernel : kernel ≠ hvmloader) (hzero : 0 ∉ kernel)
    (hshort : kernel.length + 4 < 2 ^ 31) (hnames : ¬NamesVmlinu kernel) :
    ¬PredictsSysmap kernel := by
  intro hpredicts
  obtain ⟨r, hrun⟩ := hpredicts.inBounds
  rw [linuxPredictSysmapBuffer_short hkernel hshort] at hrun
  obtain ⟨sysmap, hloop, -⟩ := except_bind_ok hrun
  obtain ⟨e, hstray⟩ := predictLoop_stray [] hzero hnames
    (show kernel.length + 2 ≤ kernel.length + 4 by omega)
  rw [hstray] at hloop
  cases hloop

/-! ## The name that is looked up -/

theorem replaceVmlinuz_names (hzero : 0 ∉ pre ++ suf) (hnames : NamesVmlinu suf)
    (hrounds : suf.length ≤ n) (tail : List U8) :
    replaceVmlinuz n (suf ++ 0 :: tail) pre = pre ++ substituted suf := by
  induction suf generalizing pre n with
  | nil => exact absurd hnames not_namesVmlinu_nil
  | cons c suf ih =>
    obtain ⟨n, rfl⟩ := Nat.exists_eq_succ_of_ne_zero (Nat.ne_of_gt (Nat.zero_lt_of_lt hrounds))
    have hlen : 6 ≤ suf.length := Nat.le_of_lt_succ (namesVmlinu_length hnames)
    have htake : (c :: suf ++ 0 :: tail).take 6 = cstr "vmlinu" ↔ cstr "vmlinu" <+: c :: suf := by
      rw [List.take_append_of_le_length (Nat.le_succ_of_le hlen)]
      show (c :: suf).take (cstr "vmlinu").length = _ ↔ _
      rw [List.prefix_iff_eq_take]
      exact eq_comm
    rw [replaceVmlinuz, substituted]
    by_cases hstarts : cstr "vmlinu" <+: c :: suf
    · obtain ⟨hpre, hsuf⟩ := not_or.mp (mt List.mem_append.mpr hzero)
      have hdrop : (c :: suf ++ 0 :: tail).drop 7 = suf.drop 6 ++ 0 :: tail :=
        List.drop_append_of_le_length (Nat.succ_le_succ hlen)
      have htail : 0 ∉ suf.drop 6 := fun hmem =>
        hsuf (List.mem_cons_of_mem c (List.mem_of_mem_drop hmem))
      rw [if_pos (htake.mpr hstarts), if_pos hstarts, hdrop, cstrOf_append_zero,
        cstrOf_eq_self_iff.mpr hpre, cstrOf_eq_self_iff.mpr htail, List.append_assoc]
    · have hrest : NamesVmlinu suf :=
        (namesVmlinu_cons.mp hnames).resolve_left fun hfirst => hstarts hfirst.1
      rw [List.append_cons] at hzero
      rw [if_neg (mt htake.mp hstarts), if_neg hstarts]
      show replaceVmlinuz n (suf ++ 0 :: tail) (pre ++ [c]) = _
      rw [ih hzero hrest (Nat.le_of_succ_le_succ hrounds), ← List.append_cons]

/-- Where the prediction stays in its memory, what is behind the string does not matter. -/
theorem linuxPredictSysmapName_eq {h : Host} {id : U32} (hname : xaGetKernelName h id = some kernel)
    (hkernel : kernel ≠ hvmloader) (hzero : 0 ∉ kernel) (hnames : NamesVmlinu kernel) :
    linuxPredictSysmapName h id = some (substituted kernel) := by
  rw [linuxPredictSysmapName, hname]
  show (if kernel = hvmloader then _ else _) = _
  rw [if_neg hkernel, replaceVmlinuz_names hzero hnames (Nat.le_add_right _ _)]
  rfl

theorem predicts_iff (hzero : 0 ∉ kernel) :
    PredictsSysmap kernel ↔
      kernel = hvmloader ∨ kernel.length + 4 < 2 ^ 31 ∧ cstr "vmlinu" <:+: kernel.dropLast := by
  by_cases hkernel : kernel = hvmloader
  · refine iff_of_true ⟨⟨none, ?_⟩, fun hne => absurd hkernel hne⟩ (Or.inl hkernel)
    rw [linuxPredictSysmapBuffer]
    exact if_pos hkernel
  · constructor
    · intro hpredicts
      have hshort : kernel.length + 4 < 2 ^ 31 := by
        by_contra hlong
        exact not_predicts_of_long hkernel hzero (Nat.le_of_not_lt hlong) hpredicts
      refine Or.inr ⟨hshort, ?_⟩
      by_contra hnames
      exact not_predicts_of_stray hkernel hzero hshort hnames hpredicts
    · rintro (hloader | ⟨hshort, hnames⟩)
      · exact absurd hloader hkernel
      · exact predicts_of_names hkernel hzero hshort hnames

/-- **When the name is predicted as documented**: for the HVM loader, and for a string short of
`2^31` that has "vmlinu" with a character behind it. The symbols of a domain with such a kernel
are then looked up in the file of that name, whatever is behind the string. -/
theorem predictsSysmap_iff (kernel : CStr) (hzero : 0 ∉ kernel) :
    (PredictsSysmap kernel ↔
      kernel = hvmloader ∨ kernel.length + 4 < 2 ^ 31 ∧ cstr "vmlinu" <:+: kernel.dropLast) ∧
    (PredictsSysmap kernel → kernel ≠ hvmloader → ∀ h id, xaGetKernelName h id = some kernel →
      linuxPredictSysmapName h id = some (substituted kernel)) := by
  refine ⟨predicts_iff hzero, fun hpredicts hkernel h id hname => ?_⟩
  have hnames : NamesVmlinu kernel :=
    (((predicts_iff hzero).mp hpredicts).resolve_left hkernel).2
  exact linuxPredictSysmapName_eq hname hkernel hzero hnames

theorem vmlinuz_predicts : PredictsSysmap (cstr "/boot/vmlinuz-2.6.18-xen") :=
  (predictsSysmap_iff (cstr "/boot/vmlinuz-2.6.18-xen") (by decide)).1.mpr
    (Or.inr ⟨by decide, by decide⟩)

/-- A path without "vmlinu": the loop goes on behind its terminator. -/
theorem kernel_not_predicts : ¬PredictsSysmap (cstr "/boot/kernel") :=
  not_predicts_of_stray (by decide) (by decide) (by decide) (by decide)

end XenAccess
