import XenAccess.Disk.DataBlocks
import XenAccess.Disk.Directory

/-!
# Resolution of paths

A tree of directories, as an image holds it, and the directory that a path leads to. The loop
of `xa_linux_ext2_dir` takes the first record with the name of a component, in use or not, and
when it is not of the type of a directory, it goes on with the next component in the directory
where it is.
-/

namespace XenAccess.Disk

variable {host : DiskHost} {x : Xadisk} {path rest : CStr} {c : CStr} {cs : List CStr}

/-! ## Components -/

/-- The components of a path that are not empty. -/
def components (path : CStr) : List CStr := (path.splitOn slash).filter (· ≠ [])

theorem components_slash (path : CStr) : components (slash :: path) = components path := by
  have := List.splitOn_append_cons_self_of_not_mem (List.not_mem_nil (a := slash)) path
  rw [List.nil_append] at this
  rw [components, this]
  rfl

theorem components_dropWhile (path : CStr) :
    components (path.dropWhile (· == slash)) = components path := by
  induction path with
  | nil => rfl
  | cons b path ih =>
    rw [List.dropWhile_cons]
    split
    · rename_i hb
      rw [ih, show b = slash from eq_of_beq hb, components_slash]
    · rfl

/-- The first component, when the path does not start with a slash. -/
theorem components_append (hc : c ≠ []) (hslash : slash ∉ c)
    (hrest : rest = [] ∨ ∃ path, rest = slash :: path) :
    components (c ++ rest) = c :: components rest := by
  rcases hrest with rfl | ⟨path, rfl⟩
  · rw [List.append_nil, components, List.splitOn_eq_singleton hslash, List.filter_cons_of_pos]
    · rfl
    · exact decide_eq_true hc
  · rw [components_slash, components, List.splitOn_append_cons_self_of_not_mem hslash,
      List.filter_cons_of_pos]
    · rfl
    · exact decide_eq_true hc

/-- A list without its first elements of a kind is empty or starts with one of another kind. -/
theorem dropWhile_cases (p : U8 → Bool) (l : CStr) :
    l.dropWhile p = [] ∨ ∃ b l', l.dropWhile p = b :: l' ∧ p b = false := by
  have hhead := List.head?_dropWhile_not p l
  cases hdrop : l.dropWhile p with
  | nil => exact .inl rfl
  | cons b l' =>
    rw [hdrop] at hhead
    exact .inr ⟨b, l', rfl, hhead⟩

/-- A path is at its end, or it has a first component. -/
theorem components_cases (path : CStr) :
    (path.dropWhile (· == slash) = [] ∧ components path = []) ∨
      ∃ c rest, path.dropWhile (· == slash) = c ++ rest ∧ c ≠ [] ∧ slash ∉ c ∧
        (rest = [] ∨ ∃ path, rest = slash :: path) ∧ components path = c :: components rest := by
  rcases dropWhile_cases (· == slash) path with hdrop | ⟨b, l, hdrop, hb⟩
  · refine .inl ⟨hdrop, ?_⟩
    rw [← components_dropWhile, hdrop]
    rfl
  · have hsplit := List.takeWhile_append_dropWhile (p := (· != slash)) (l := b :: l)
    have hne : (b :: l).takeWhile (· != slash) ≠ [] := by
      rw [List.takeWhile_cons_of_pos (by rw [bne, hb]; rfl)]
      exact List.cons_ne_nil _ _
    have hslash : slash ∉ (b :: l).takeWhile (· != slash) := by
      intro hmem
      have := List.mem_takeWhile_imp hmem
      rw [bne_self_eq_false] at this
      cases this
    have hrest : (b :: l).dropWhile (· != slash) = [] ∨
        ∃ path, (b :: l).dropWhile (· != slash) = slash :: path := by
      rcases dropWhile_cases (· != slash) (b :: l) with hnil | ⟨b', l', hcons, hb'⟩
      · exact .inl hnil
      · have : b' = slash := by simpa using hb'
        exact .inr ⟨l', this ▸ hcons⟩
    refine .inr ⟨_, _, hdrop.trans hsplit.symm, hne, hslash, hrest, ?_⟩
    rw [← components_dropWhile, hdrop]
    conv_lhs => rw [← hsplit]
    exact components_append hne hslash hrest

/-- Components one after the other, as a path. -/
def joined (cs : List CStr) : CStr := cs.flatMap fun c => slash :: c

theorem components_joined (hcs : ∀ c ∈ cs, c ≠ [] ∧ slash ∉ c) : components (joined cs) = cs := by
  induction cs with
  | nil => rfl
  | cons c cs ih =>
    obtain ⟨hne, hslash⟩ := hcs c List.mem_cons_self
    have hrest : joined cs = [] ∨ ∃ path, joined cs = slash :: path := by
      cases cs with
      | nil => exact .inl rfl
      | cons c' cs => exact .inr ⟨_, rfl⟩
    rw [show joined (c :: cs) = slash :: (c ++ joined cs) from rfl, components_slash,
      components_append hne hslash hrest, ih fun c' hc' => hcs c' (List.mem_cons_of_mem c hc')]

/-- Components are not empty, and have no slash and no other characters than the path. -/
theorem mem_components (hc : c ∈ components path) : c ≠ [] ∧ slash ∉ c ∧ ∀ b ∈ c, b ∈ path := by
  induction hn : path.length using Nat.strongRecOn generalizing path with
  | _ n ih =>
    rcases components_cases path with ⟨-, hnil⟩ | ⟨c', rest, hsplit, hne, hslash, -, hcons⟩
    · rw [hnil] at hc
      cases hc
    · have hmem (b : U8) (hb : b ∈ c' ++ rest) : b ∈ path :=
        (List.dropWhile_sublist _).mem (hsplit ▸ hb)
      rw [hcons] at hc
      rcases List.mem_cons.mp hc with rfl | hc
      · exact ⟨hne, hslash, fun b hb => hmem b (List.mem_append_left rest hb)⟩
      · have hlen := (List.dropWhile_sublist (· == slash) (l := path)).length_le
        have hpos := List.length_pos_iff.mpr hne
        rw [hsplit, List.length_append] at hlen
        obtain ⟨hne', hslash', hrest⟩ := ih rest.length (by omega) hc rfl
        exact ⟨hne', hslash', fun b hb => hmem b (List.mem_append_right c' (hrest b hb))⟩

/-! ## Trees -/

/-- A data block of a directory: its number in the image, and its records. -/
structure DirBlock where
  number : U32
  records : List DirRecord

/-- The directories of an image, by their inodes. A directory starts with the entries `.` of
itself and `..`, every entry of type directory leads to a directory, and no other entry leads to
the directory it is in. -/
structure DirTree where
  dir : U32 → Option (List DirBlock)
  root : (dir ext2RootInode).isSome
  zero : dir 0 = none
  few : ∀ n blocks, dir n = some blocks → blocks.length ≤ 12
  closed : ∀ n blocks, dir n = some blocks → ∀ r ∈ blocks.flatMap DirBlock.records,
    r.inode ≠ 0 → r.type = 2 → (dir r.inode).isSome
  dots : ∀ n blocks, dir n = some blocks → ∃ self parent rs,
    blocks.flatMap DirBlock.records = self :: parent :: rs ∧
      self.name = cstr "." ∧ self.type = 2 ∧ self.inode = n ∧
      parent.name = cstr ".." ∧ parent.type = 2 ∧ parent.inode ≠ 0
  proper : ∀ n blocks, dir n = some blocks → ∀ r ∈ blocks.flatMap DirBlock.records,
    r.inode = n → r.name = cstr "." ∨ r.name = cstr ".."

namespace DirTree

variable (t : DirTree)

/-- The records of a directory, in the order of its blocks. -/
def records (n : U32) : List DirRecord := ((t.dir n).getD []).flatMap DirBlock.records

theorem records_eq {t : DirTree} {n : U32} {blocks : List DirBlock} (hdir : t.dir n = some blocks) :
    t.records n = blocks.flatMap DirBlock.records := by
  rw [records, hdir]
  rfl

/-- The data blocks of a directory. -/
def numbers (n : U32) : List U32 := ((t.dir n).getD []).map DirBlock.number

/-- The entry with a name: a record that is in use. -/
def entry (n : U32) (name : CStr) : Option DirRecord :=
  (t.records n).find? fun r => r.inode != 0 && r.name == name

/-- The directory that the entry with a name leads to, if it is of type directory. -/
def child (n : U32) (name : CStr) : Option U32 :=
  (t.entry n name).bind fun r => if r.type = 2 then some r.inode else none

/-- The components resolved one by one. -/
def resolve : List CStr → U32 → Option U32
  | [], n => some n
  | c :: cs, n => (t.child n c).bind (resolve cs)

/-- The directory that components lead to, with its data blocks. -/
def expected (cs : List CStr) (n : U32) : Option (List U32 × U32) :=
  (t.resolve cs n).map fun d => (t.numbers d, d)

/-- The first record with a name, in use or not. -/
def first (n : U32) (name : CStr) : Option DirRecord :=
  (t.records n).find? fun r => r.name == name

theorem first_name {t : DirTree} {n : U32} {name : CStr} {r : DirRecord}
    (hr : t.first n name = some r) : r.name = name := by
  rw [first] at hr
  have := List.find?_some hr
  exact eq_of_beq this

/-- On the way along the components, the first record with the name of a component, if there is
one, is in use and of type directory. -/
def Straight : List CStr → U32 → Prop
  | [], _ => True
  | c :: cs, n => ∀ r, t.first n c = some r → (r.inode ≠ 0 ∧ r.type = 2) ∧ Straight cs r.inode

end DirTree

/-- An inode with its data blocks. -/
structure InodeAt (m : Mem) (d : Nat) (numbers : List U32) : Prop where
  sectors : (m.u32 (d + 28)).toNat = 8 * numbers.length
  pointers : ∀ i < numbers.length, numbers[i]? = some (m.u32 (d + 40 + 4 * i))

/-- The image holds the tree: where the library looks for the inode of a directory, it has this
inode, and the records of the directory tile its blocks. -/
structure OnImage (host : DiskHost) (x : Xadisk) (t : DirTree) : Prop where
  blockSize : x.sb.blockSize = 4096
  blocksPerGroup : x.sb.blocksPerGroup ≠ 0
  inodesPerGroup : x.sb.inodesPerGroup ≠ 0
  inode : ∀ n blocks, t.dir n = some blocks → ∃ m,
    host.mmap (x.sb.blocksPerGroup * x.sb.blockSize) (dirGetgroup x.sb n) = some m ∧
      InodeAt m (findinode x.sb (x.iTables (n / x.sb.inodesPerGroup)) n).toNat
        (blocks.map DirBlock.number)
  block : ∀ n blocks, t.dir n = some blocks → ∀ b ∈ blocks, ∃ m,
    host.mmap x.sb.blockSize (b.number.setWidth 64 * x.sb.blockSize.setWidth 64) = some m ∧
      Tiles m 0 b.records

/-- The path is resolved as in the tree. -/
def ResolvesPath (host : DiskHost) (x : Xadisk) (t : DirTree) (path : CStr) : Prop :=
  ext2Dir host x path = .ok (t.expected (components path) ext2RootInode)

/-! ## Searching a directory -/

/-- The record that was found, if there is one. -/
def Finds (res : Option (Mem × Nat)) (r : Option DirRecord) : Prop :=
  Option.Rel (fun place r => RecordAt place.1 place.2 r) res r

theorem named_iff {m : Mem} {d : Nat} {r : DirRecord} (hr : RecordAt m d r) :
    Named m c d ↔ r.name = c := by
  rw [Named, hr.nameLen]
  constructor
  · rintro ⟨hlen, hname⟩
    rw [hlen, hr.name] at hname
    exact hname
  · rintro rfl
    exact ⟨rfl, hr.name⟩

theorem finddirLoop_tiles (hc : 0 ∉ c) {m : Mem} {d k : Nat} {rs : List DirRecord}
    (hrs : Tiles m d rs) (hk : blockBytes ≤ d + k) :
    ∃ res, finddirLoop m c blockBytes k d = .ok res ∧
      Option.Rel (fun pos r => RecordAt m pos r) res (rs.find? fun r => r.name == c) := by
  induction rs generalizing d k with
  | nil =>
    have hend : ¬d < blockBytes := by
      rw [show d = blockBytes from hrs]
      exact Nat.lt_irrefl _
    refine ⟨none, ?_, .none⟩
    cases k with
    | zero => rw [finddirLoop, if_neg hend]
    | succ k => rw [finddirLoop, if_neg hend]
  | cons r rs ih =>
    obtain ⟨hr, -, hlen, hle, hrest⟩ := hrs
    obtain ⟨k, rfl⟩ : ∃ k', k = k' + 1 := Nat.exists_eq_add_one.mpr (by omega)
    rw [finddirLoop_succ hc blockBytes k (by omega), List.find?_cons, hr.recLen]
    by_cases hname : r.name = c
    · rw [if_pos ((named_iff hr).mpr hname), beq_iff_eq.mpr hname]
      exact ⟨some d, rfl, .some hr⟩
    · rw [if_neg ((named_iff hr).not.mpr hname), beq_eq_false_iff_ne.mpr hname]
      exact ih hrest (by omega)

theorem findInBlocks_tiles (hc : 0 ∉ c) (hsize : x.sb.blockSize = 4096) {blocks : List DirBlock}
    (hblocks : ∀ b ∈ blocks, ∃ m,
      host.mmap x.sb.blockSize (b.number.setWidth 64 * x.sb.blockSize.setWidth 64) = some m ∧
        Tiles m 0 b.records) :
    ∃ res, findInBlocks host x.sb c (blocks.map DirBlock.number) = .ok res ∧
      Finds res ((blocks.flatMap DirBlock.records).find? fun r => r.name == c) := by
  induction blocks with
  | nil => exact ⟨none, rfl, .none⟩
  | cons b blocks ih =>
    obtain ⟨m, hm, htiles⟩ := hblocks b List.mem_cons_self
    obtain ⟨res, hres, hrel⟩ := ih fun b' hb' => hblocks b' (List.mem_cons_of_mem b hb')
    obtain ⟨pos, hpos, hfound⟩ := finddirLoop_tiles hc htiles (Nat.le_add_left blockBytes 0)
    have hfind : finddir m c (x.sb.blockSize.setWidth 16) = .ok pos := by
      rw [hsize]
      exact hpos
    rw [List.map_cons, findInBlocks, hm, List.flatMap_cons, List.find?_append]
    generalize b.records.find? (fun r => r.name == c) = first at hfound ⊢
    show ∃ res, Except.bind (finddir m c (x.sb.blockSize.setWidth 16)) _ = .ok res ∧ _
    rw [hfind]
    cases hfound with
    | none => exact ⟨res, hres, by rwa [Option.none_or]⟩
    | some hr => exact ⟨some (m, _), rfl, .some hr⟩

/-- Names have less than 256 characters. -/
theorem tiles_name_length {m : Mem} {d : Nat} {rs : List DirRecord} (hrs : Tiles m d rs) :
    ∀ r ∈ rs, r.name.length < 256 := by
  induction rs generalizing d with
  | nil => exact fun r hr => absurd hr List.not_mem_nil
  | cons r rs ih =>
    obtain ⟨hr, -, -, -, hrest⟩ := hrs
    intro r' hr'
    rcases List.mem_cons.mp hr' with rfl | hr'
    · rw [← hr.nameLen]
      exact (dirGetnamelen m d).isLt
    · exact ih hrest r' hr'

theorem datablocks_eq {m : Mem} {d : Nat} {numbers : List U32} (hinode : InodeAt m d numbers)
    (hfew : numbers.length ≤ 12) : datablocks m d = .ok numbers := by
  have hcount : (m.u32 (d + 28)).toNat / 8 = numbers.length := by
    rw [hinode.sectors]
    exact Nat.mul_div_cancel_left _ (by decide)
  have hfit : (m.u32 (d + 28)).toNat / 8 ≤ ext2Nblocks := by
    rw [hcount, ext2Nblocks]
    omega
  rw [datablocks_ok hfit, hcount]
  refine congrArg Except.ok (List.ext_getElem? fun i => ?_)
  by_cases hi : i < numbers.length
  · rw [hinode.pointers i hi, List.getElem?_map, List.getElem?_range hi]
    rfl
  · rw [List.getElem?_eq_none (by rw [List.length_map, List.length_range]; omega),
      List.getElem?_eq_none (by omega)]

/-! ## One component -/

/-- At the end of the path the loop stops in the inode it is at. -/
theorem inode_of_loop {n : U32} {rounds : Nat} {res : Option (List U32 × U32)}
    (hpath : components path = []) (hres : ext2DirLoop host x rounds path n = .ok res) :
    ∃ blocks, res = some (blocks, n) := by
  have hdrop : path.dropWhile (· == slash) = [] := by
    rcases components_cases path with ⟨hdrop, -⟩ | ⟨c, rest, -, -, -, -, hcons⟩
    · exact hdrop
    · rw [hcons] at hpath
      cases hpath
  cases rounds with
  | zero => cases hres
  | succ rounds =>
    rw [ext2DirLoop, hdrop] at hres
    split at hres
    · cases hres
    · dsimp only at hres
      split at hres
      · cases hres
      · rename_i m hm
        change Except.bind (datablocks m _) _ = _ at hres
        cases hblocks : datablocks m
            (findinode x.sb (x.iTables (n / x.sb.inodesPerGroup)) n).toNat with
        | error e => rw [hblocks] at hres; cases hres
        | ok blocks => rw [hblocks] at hres; exact ⟨blocks, (Except.ok.inj hres).symm⟩

/-- The loop copies a component as long as it has place. -/
theorem pathElem_append (hslash : slash ∉ c) (hrest : rest = [] ∨ ∃ path, rest = slash :: path) :
    pathElem (c ++ rest) = c.take maxPathLen := by
  have hall : ∀ b ∈ c, (b != slash) = true := by
    intro b hb
    rw [bne_iff_ne]
    rintro rfl
    exact hslash hb
  rw [pathElem, ← List.take_takeWhile, List.takeWhile_append_of_pos hall]
  rcases hrest with rfl | ⟨path, rfl⟩
  · rw [List.takeWhile_nil, List.append_nil]
  · rw [List.takeWhile_cons_of_neg (by rw [bne_self_eq_false]; exact Bool.false_ne_true),
      List.append_nil]

namespace OnImage

variable {t : DirTree} {n : U32} {blocks : List DirBlock} {rounds : Nat}

/-- The data blocks of a directory are found. -/
theorem group (himage : OnImage host x t) (hdir : t.dir n = some blocks) :
    ∃ m, host.mmap (x.sb.blocksPerGroup * x.sb.blockSize) (dirGetgroup x.sb n) = some m ∧
      datablocks m (findinode x.sb (x.iTables (n / x.sb.inodesPerGroup)) n).toNat =
        .ok (t.numbers n) := by
  obtain ⟨m, hm, hinode⟩ := himage.inode n blocks hdir
  refine ⟨m, hm, ?_⟩
  rw [datablocks_eq hinode (by rw [List.length_map]; exact t.few n blocks hdir), DirTree.numbers,
    hdir]
  rfl

/-- A round in a directory: at the end of the path the loop stops there, else it looks for the
next component. -/
theorem loop_eq (himage : OnImage host x t) (hdir : t.dir n = some blocks)
    (hpath : path.dropWhile (· == slash) = rest) (rounds : Nat) :
    ext2DirLoop host x (rounds + 1) path n =
      if rest = [] then .ok (some (t.numbers n, n))
      else (findInBlocks host x.sb (pathElem rest) (t.numbers n)).bind fun found =>
        found.elim (.ok none) fun place =>
          ext2DirLoop host x rounds (rest.drop (pathElem rest).length)
            (if dirGettype place.1 place.2 = 2 then dirGetinode place.1 place.2 else n) := by
  obtain ⟨m, hm, hblocks⟩ := himage.group hdir
  rw [ext2DirLoop, if_neg (not_or.mpr ⟨himage.inodesPerGroup, himage.blocksPerGroup⟩), hm]
  dsimp only
  rw [hblocks, hpath]
  refine if_congr Iff.rfl rfl ?_
  show Except.bind (findInBlocks host x.sb (pathElem rest) (t.numbers n)) _ = _
  cases findInBlocks host x.sb (pathElem rest) (t.numbers n) with
  | error e => rfl
  | ok found =>
    cases found with
    | none => rfl
    | some place => rfl

theorem find (himage : OnImage host x t) (hdir : t.dir n = some blocks) (hc : 0 ∉ c) :
    ∃ res, findInBlocks host x.sb c (t.numbers n) = .ok res ∧ Finds res (t.first n c) := by
  rw [DirTree.first, DirTree.records_eq hdir, DirTree.numbers, hdir]
  exact findInBlocks_tiles hc himage.blockSize (himage.block n blocks hdir)

theorem name_length (himage : OnImage host x t) (hdir : t.dir n = some blocks) {r : DirRecord}
    (hr : r ∈ t.records n) : r.name.length < 256 := by
  rw [DirTree.records_eq hdir] at hr
  obtain ⟨b, hb, hrb⟩ := List.mem_flatMap.mp hr
  obtain ⟨m, -, htiles⟩ := himage.block n blocks hdir b hb
  exact tiles_name_length htiles r hrb

/-- The name that is searched for is found as the component, which can be longer. -/
theorem first_take (himage : OnImage host x t) (hdir : t.dir n = some blocks) :
    t.first n (c.take maxPathLen) = t.first n c := by
  by_cases hlen : c.length < maxPathLen
  · rw [List.take_of_length_le hlen.le]
  · have hnone (c' : CStr) (hc' : maxPathLen ≤ c'.length) : t.first n c' = none := by
      rw [DirTree.first, List.find?_eq_none]
      intro r hr heq
      have hlt := himage.name_length hdir hr
      rw [eq_of_beq heq] at hlt
      exact absurd hlt (Nat.not_lt.mpr hc')
    rw [hnone c (Nat.not_lt.mp hlen), hnone _ (by rw [List.length_take]; omega)]

theorem loop_nil (himage : OnImage host x t) (hdir : t.dir n = some blocks)
    (hpath : components path = []) :
    ext2DirLoop host x (rounds + 1) path n = .ok (some (t.numbers n, n)) := by
  rcases components_cases path with ⟨hdrop, -⟩ | ⟨c, rest, -, -, -, -, hcons⟩
  · rw [himage.loop_eq hdir hdrop, if_pos rfl]
  · rw [hcons] at hpath
    cases hpath

/-- A component that no record has as its name. -/
theorem loop_missing (himage : OnImage host x t) (hdir : t.dir n = some blocks) (hzero : 0 ∉ path)
    (hpath : components path = c :: cs) (hfirst : t.first n c = none) :
    ext2DirLoop host x (rounds + 1) path n = .ok none := by
  rcases components_cases path with ⟨-, hnil⟩ | ⟨c', rest, hdrop, hne, hslash, hrest, hcons⟩
  · rw [hnil] at hpath
    cases hpath
  · obtain ⟨rfl, -⟩ := List.cons.inj (hcons.symm.trans hpath)
    have hc : 0 ∉ c'.take maxPathLen := by
      intro hmem
      exact hzero ((mem_components (hcons ▸ List.mem_cons_self)).2.2 0 (List.mem_of_mem_take hmem))
    obtain ⟨res, hres, hfinds⟩ := himage.find hdir hc
    rw [himage.first_take hdir, hfirst] at hfinds
    cases hfinds
    rw [himage.loop_eq hdir hdrop, if_neg (List.append_ne_nil_of_left_ne_nil hne rest),
      pathElem_append hslash hrest, hres]
    rfl

/-- A component that some record has as its name. -/
theorem loop_found (himage : OnImage host x t) (hdir : t.dir n = some blocks) (hzero : 0 ∉ path)
    (hpath : components path = c :: cs) {r : DirRecord} (hfirst : t.first n c = some r)
    (rounds : Nat) : ∃ rest, components rest = cs ∧ rest.length < path.length ∧ 0 ∉ rest ∧
      ext2DirLoop host x (rounds + 1) path n =
        ext2DirLoop host x rounds rest (if r.type = 2 then r.inode else n) := by
  rcases components_cases path with ⟨-, hnil⟩ | ⟨c', rest, hdrop, hne, hslash, hrest, hcons⟩
  · rw [hnil] at hpath
    cases hpath
  · obtain ⟨rfl, rfl⟩ := List.cons.inj (hcons.symm.trans hpath)
    have hname : r.name = c' := DirTree.first_name hfirst
    have hlen : c'.length < maxPathLen :=
      hname ▸ himage.name_length hdir (List.mem_of_find?_eq_some hfirst)
    have helem : pathElem (c' ++ rest) = c' := by
      rw [pathElem_append hslash hrest, List.take_of_length_le hlen.le]
    have hmem (b : U8) (hb : b ∈ c' ++ rest) : b ∈ path :=
      (List.dropWhile_sublist _).mem (hdrop ▸ hb)
    obtain ⟨res, hres, hfinds⟩ :=
      himage.find hdir fun hb => hzero (hmem 0 (List.mem_append_left rest hb))
    rw [hfirst] at hfinds
    have hshort := (List.dropWhile_sublist (· == slash) (l := path)).length_le
    have hpos := List.length_pos_iff.mpr hne
    rw [hdrop, List.length_append] at hshort
    refine ⟨rest, rfl, by omega, fun hb => hzero (hmem 0 (List.mem_append_right c' hb)), ?_⟩
    obtain ⟨⟨m, pos⟩, hrec, rfl⟩ : ∃ place, RecordAt place.1 place.2 r ∧ res = some place := by
      cases hfinds with
      | some hrec => exact ⟨_, hrec, rfl⟩
    rw [himage.loop_eq hdir hdrop, if_neg (List.append_ne_nil_of_left_ne_nil hne rest), helem, hres,
      List.drop_left, ← hrec.type, ← hrec.inode]
    rfl

end OnImage

/-! ## Whole paths -/

namespace DirTree

variable {t : DirTree} {n d : U32} {blocks : List DirBlock} {r : DirRecord}

theorem child_eq_none (hfirst : t.first n c = none) : t.child n c = none := by
  have hentry : t.entry n c = none := by
    rw [entry, List.find?_eq_none]
    intro r hr hname
    rw [Bool.and_eq_true] at hname
    exact List.find?_eq_none.mp hfirst r hr hname.2
  rw [child, hentry]
  rfl

/-- The first record with a name is the entry of the name, if it is in use. -/
theorem child_of_first (hfirst : t.first n c = some r) (hlive : r.inode ≠ 0) :
    t.child n c = if r.type = 2 then some r.inode else none := by
  have hentry : t.entry n c = some r := by
    obtain ⟨hname, l, l', hsplit, hbefore⟩ := List.find?_eq_some_iff_append.mp hfirst
    refine List.find?_eq_some_iff_append.mpr ⟨?_, l, l', hsplit, fun r' hr' => ?_⟩
    · rw [hname, Bool.and_true, bne_iff_ne]
      exact hlive
    · have := hbefore r' hr'
      rw [Bool.not_eq_true'] at this ⊢
      rw [this, Bool.and_false]
  rw [child, hentry]
  rfl

/-- A directory in use leads on along the other components. -/
theorem expected_of_first (hfirst : t.first n c = some r) (hgood : r.inode ≠ 0 ∧ r.type = 2) :
    t.expected (c :: cs) n = t.expected cs r.inode := by
  rw [expected, resolve, child_of_first hfirst hgood.1, if_pos hgood.2]
  rfl

theorem dir_of_first (hdir : t.dir n = some blocks) (hfirst : t.first n c = some r)
    (hgood : r.inode ≠ 0 ∧ r.type = 2) : (t.dir r.inode).isSome := by
  have hmem := List.mem_of_find?_eq_some hfirst
  rw [records_eq hdir] at hmem
  exact t.closed n blocks hdir r hmem hgood.1 hgood.2

theorem straight_missing (hfirst : t.first n c = none) : t.Straight (c :: cs) n := by
  intro r hr
  rw [hfirst] at hr
  cases hr

theorem straight_dir (hfirst : t.first n c = some r) (hdir : r.inode ≠ 0 ∧ r.type = 2)
    (hrest : t.Straight cs r.inode) : t.Straight (c :: cs) n := by
  intro r' hr'
  obtain rfl := Option.some.inj (hfirst.symm.trans hr')
  exact ⟨hdir, hrest⟩

/-- Every component leads to a directory of the tree. -/
theorem child_eq_some (hdir : t.dir n = some blocks) (hd : t.child n c = some d) :
    ∃ r ∈ blocks.flatMap DirBlock.records, r.name = c ∧ r.inode = d ∧ (t.dir d).isSome := by
  obtain ⟨r, hr, hrd⟩ := Option.bind_eq_some_iff.mp hd
  rw [entry] at hr
  have hmem := List.mem_of_find?_eq_some hr
  have hprop := List.find?_some hr
  rw [Bool.and_eq_true, bne_iff_ne, beq_iff_eq] at hprop
  rw [records_eq hdir] at hmem
  split at hrd
  · rename_i htype
    obtain rfl := Option.some.inj hrd
    exact ⟨r, hmem, hprop.2, rfl, t.closed n blocks hdir r hmem hprop.1 htype⟩
  · cases hrd

/-- Where the first record of a name is no directory, the name does not lead to the directory it
is in. -/
theorem child_ne_self (hdir : t.dir n = some blocks) (hfirst : t.first n c = some r)
    (htype : r.type ≠ 2) : t.child n c ≠ some n := by
  intro hself
  obtain ⟨r', hr', hname, hinode, -⟩ := child_eq_some hdir hself
  obtain ⟨self, parent, rs, hrecords, hsname, hstype, -, hpname, hptype, -⟩ := t.dots n blocks hdir
  rw [first, records_eq hdir, hrecords] at hfirst
  rcases t.proper n blocks hdir r' hr' hinode with hdot | hdotdot
  · have hself : (self.name == c) = true := by rw [hsname, ← hname, hdot, beq_self_eq_true]
    rw [List.find?_cons, hself] at hfirst
    exact htype (Option.some.inj hfirst ▸ hstype)
  · have hself : (self.name == c) = false := by
      rw [hsname, ← hname, hdotdot]
      decide
    have hparent : (parent.name == c) = true := by
      rw [hpname, ← hname, hdotdot, beq_self_eq_true]
    rw [List.find?_cons, hself, List.find?_cons, hparent] at hfirst
    exact htype (Option.some.inj hfirst ▸ hptype)

end DirTree

namespace OnImage

variable {t : DirTree} {n : U32}

theorem loop_of_straight (himage : OnImage host x t) {rounds : Nat} (hn : (t.dir n).isSome)
    (hzero : 0 ∉ path) (hrounds : path.length < rounds)
    (hstraight : t.Straight (components path) n) :
    ext2DirLoop host x rounds path n = .ok (t.expected (components path) n) := by
  induction hcs : components path generalizing path n rounds with
  | nil =>
    obtain ⟨blocks, hdir⟩ := Option.isSome_iff_exists.mp hn
    obtain ⟨rounds, rfl⟩ := Nat.exists_eq_add_one.mpr (Nat.zero_lt_of_lt hrounds)
    exact himage.loop_nil hdir hcs
  | cons c cs ih =>
    obtain ⟨blocks, hdir⟩ := Option.isSome_iff_exists.mp hn
    obtain ⟨rounds, rfl⟩ := Nat.exists_eq_add_one.mpr (Nat.zero_lt_of_lt hrounds)
    rw [hcs] at hstraight
    cases hfirst : t.first n c with
    | none =>
      rw [himage.loop_missing hdir hzero hcs hfirst, DirTree.expected, DirTree.resolve,
        DirTree.child_eq_none hfirst]
      rfl
    | some r =>
      obtain ⟨hgood, hstraight⟩ := hstraight r hfirst
      obtain ⟨rest, hcomp, hlen, hzero', hloop⟩ := himage.loop_found hdir hzero hcs hfirst rounds
      have hsome := DirTree.dir_of_first hdir hfirst hgood
      rw [hloop, if_pos hgood.2, DirTree.expected_of_first hfirst hgood]
      exact ih hsome hzero' (by omega) (hcomp.symm ▸ hstraight) hcomp

/-- A component whose first record is not that of a directory in use leads elsewhere. -/
theorem loop_of_crooked (himage : OnImage host x t) {blocks : List DirBlock} {rounds : Nat}
    (hdir : t.dir n = some blocks) (hzero : 0 ∉ path) (hrounds : path.length < rounds)
    (hpath : components path = [c]) {r : DirRecord} (hfirst : t.first n c = some r)
    (hbad : ¬(r.inode ≠ 0 ∧ r.type = 2)) :
    ext2DirLoop host x rounds path n ≠ .ok (t.expected [c] n) := by
  obtain ⟨rounds, rfl⟩ := Nat.exists_eq_add_one.mpr (Nat.zero_lt_of_lt hrounds)
  obtain ⟨rest, hcomp, -, -, hloop⟩ := himage.loop_found hdir hzero hpath hfirst rounds
  intro heq
  rw [hloop] at heq
  obtain ⟨numbers, hplace⟩ := inode_of_loop hcomp heq
  obtain ⟨d, hd, hpair⟩ := Option.map_eq_some_iff.mp hplace
  have hchild : t.child n c = some d := by
    rw [DirTree.resolve] at hd
    obtain ⟨d', hd', hend⟩ := Option.bind_eq_some_iff.mp hd
    rw [hd', show d' = d from Option.some.inj hend]
  have hdeq : d = if r.type = 2 then r.inode else n := (Prod.mk.inj hpair).2
  by_cases htype : r.type = 2
  · -- the inode of a record that is not in use is no directory
    have hinode : r.inode = 0 := by
      by_contra hlive
      exact hbad ⟨hlive, htype⟩
    rw [if_pos htype, hinode] at hdeq
    obtain ⟨r', -, -, -, hsome⟩ := DirTree.child_eq_some hdir hchild
    rw [hdeq, t.zero] at hsome
    cases hsome
  · rw [if_neg htype] at hdeq
    rw [hdeq] at hchild
    exact DirTree.child_ne_self hdir hfirst htype hchild

/-- When the way is not straight, some initial part of it leads elsewhere. -/
theorem exists_crooked (himage : OnImage host x t) (hn : (t.dir n).isSome)
    (hcrooked : ¬t.Straight cs n) :
    ∃ cs', cs' <+: cs ∧ ∀ path rounds, 0 ∉ path → path.length < rounds → components path = cs' →
      ext2DirLoop host x rounds path n ≠ .ok (t.expected cs' n) := by
  induction cs generalizing n with
  | nil => exact absurd trivial hcrooked
  | cons c cs ih =>
    obtain ⟨blocks, hdir⟩ := Option.isSome_iff_exists.mp hn
    obtain ⟨r, hr⟩ := not_forall.mp hcrooked
    obtain ⟨hfirst, hr⟩ := Classical.not_imp.mp hr
    by_cases hgood : r.inode ≠ 0 ∧ r.type = 2
    · obtain ⟨cs', hpre, hwrong⟩ := ih (DirTree.dir_of_first hdir hfirst hgood)
        fun hrest => hr ⟨hgood, hrest⟩
      refine ⟨c :: cs', List.cons_prefix_cons.mpr ⟨rfl, hpre⟩, ?_⟩
      intro path rounds hzero hrounds hpath
      obtain ⟨rounds, rfl⟩ := Nat.exists_eq_add_one.mpr (Nat.zero_lt_of_lt hrounds)
      obtain ⟨rest, hcomp, hlen, hzero', hloop⟩ := himage.loop_found hdir hzero hpath hfirst rounds
      rw [hloop, if_pos hgood.2, DirTree.expected_of_first hfirst hgood]
      exact hwrong rest rounds hzero' (by omega) hcomp
    · refine ⟨[c], List.cons_prefix_cons.mpr ⟨rfl, List.nil_prefix⟩, ?_⟩
      intro path rounds hzero hrounds hpath
      exact himage.loop_of_crooked hdir hzero hrounds hpath hfirst hgood

/-- The way along initial parts of the components is straight too. -/
theorem straight_prefix {cs' : List CStr} (hpre : cs' <+: cs) (hstraight : t.Straight cs n) :
    t.Straight cs' n := by
  induction cs' generalizing cs n with
  | nil => trivial
  | cons c cs' ih =>
    obtain ⟨l, rfl⟩ := hpre
    exact fun r hr => ⟨(hstraight r hr).1, ih ⟨l, rfl⟩ (hstraight r hr).2⟩

end OnImage

/-- The path, and every path to an initial part of its components, is resolved as in the tree. -/
def ResolvesThroughout (host : DiskHost) (x : Xadisk) (t : DirTree) (path : CStr) : Prop :=
  ∀ path', 0 ∉ path' → components path' <+: components path → ResolvesPath host x t path'

/-- **When paths are resolved as in the tree.** Exactly if on the way along the components the
first record with the name of a component is in use and of type directory. -/
theorem resolvesThroughout_iff (host : DiskHost) (x : Xadisk) (t : DirTree)
    (himage : OnImage host x t) (path : CStr) (hzero : 0 ∉ path) :
    ResolvesThroughout host x t path ↔ t.Straight (components path) ext2RootInode := by
  constructor
  · intro hall
    by_contra hcrooked
    obtain ⟨cs', hpre, hwrong⟩ := himage.exists_crooked t.root hcrooked
    have hmem (c : CStr) (hc : c ∈ cs') := mem_components (hpre.subset hc)
    have hcomp : components (joined cs') = cs' :=
      components_joined fun c hc => ⟨(hmem c hc).1, (hmem c hc).2.1⟩
    have hzero' : 0 ∉ joined cs' := by
      intro hb
      obtain ⟨c, hc, hb⟩ := List.mem_flatMap.mp hb
      rcases List.mem_cons.mp hb with heq | hb
      · exact absurd heq (by decide)
      · exact hzero ((hmem c hc).2.2 0 hb)
    apply hwrong (joined cs') _ hzero' (Nat.lt_succ_self _) hcomp
    have := hall (joined cs') hzero' (hcomp.symm ▸ hpre)
    rw [ResolvesPath, hcomp] at this
    exact this
  · intro hstraight path' hzero' hpre
    exact himage.loop_of_straight t.root hzero' (Nat.lt_succ_self _)
      (OnImage.straight_prefix hpre hstraight)

/-- An image with inode 2 in block 1, and in block 2 the records `.`, `..` and a file `a`. -/
def fileImage : Mem := fun d =>
  (List.lookup d [(4252, 8), (4264, 2),
    (8192, 2), (8196, 12), (8198, 1), (8199, 2), (8200, 46),
    (8204, 2), (8208, 12), (8210, 2), (8211, 2), (8212, 46), (8213, 46),
    (8216, 11), (8220, 0xE8), (8221, 0x0F), (8222, 1), (8223, 1), (8224, 97)]).getD 0

def fileHost : DiskHost where
  mmap _ off := some fun i => fileImage (off.toNat + i)
  read off i := fileImage (off.toNat + i)
  freshSlots _ := { op := 0, pathElem := fun _ => 0 }
  stackTail _ := 0

def fileDisk : Xadisk where
  sb := ⟨8, 4096, 8, 16, 128⟩
  iTables _ := 1

def rootRecords : List DirRecord :=
  [⟨2, 12, 2, cstr "."⟩, ⟨2, 12, 2, cstr ".."⟩, ⟨11, 4072, 1, cstr "a"⟩]

theorem rootRecords_tiles : Tiles (fun i => fileImage (8192 + i)) 0 rootRecords := by
  refine ⟨⟨by decide, by decide, by decide, by decide, by decide⟩, by decide, by decide, by decide,
    ⟨by decide, by decide, by decide, by decide, by decide⟩, by decide, by decide, by decide,
    ⟨by decide, by decide, by decide, by decide, by decide⟩, by decide, by decide, by decide, ?_⟩
  show 0 + 12 + 12 + 4072 = 4096
  rfl

/-- The tree with the root only. -/
def fileTree : DirTree where
  dir n := if n = 2 then some [⟨2, rootRecords⟩] else none
  root := by decide
  zero := by decide
  few := by
    intro n blocks hdir
    split at hdir
    · obtain rfl := Option.some.inj hdir
      decide
    · cases hdir
  closed := by
    intro n blocks hdir
    split at hdir
    · obtain rfl := Option.some.inj hdir
      decide
    · cases hdir
  dots := by
    intro n blocks hdir
    split at hdir
    · obtain rfl := Option.some.inj hdir
      rename_i hn
      exact ⟨_, _, _, rfl, rfl, rfl, hn.symm, rfl, rfl, by decide⟩
    · cases hdir
  proper := by
    intro n blocks hdir
    split at hdir
    · obtain rfl := Option.some.inj hdir
      rename_i hn
      subst hn
      decide
    · cases hdir

theorem fileTree_onImage : OnImage fileHost fileDisk fileTree where
  blockSize := rfl
  blocksPerGroup := by decide
  inodesPerGroup := by decide
  inode := by
    intro n blocks hdir
    change (if n = 2 then some [DirBlock.mk 2 rootRecords] else none) = _ at hdir
    split at hdir
    · rename_i hn
      subst hn
      obtain rfl := Option.some.inj hdir
      exact ⟨_, rfl, by decide, by decide⟩
    · cases hdir
  block := by
    intro n blocks hdir
    change (if n = 2 then some [DirBlock.mk 2 rootRecords] else none) = _ at hdir
    split at hdir
    · obtain rfl := Option.some.inj hdir
      intro b hb
      obtain rfl := List.mem_singleton.mp hb
      exact ⟨_, rfl, rootRecords_tiles⟩
    · cases hdir

theorem fileTree_resolvesThroughout :
    ResolvesThroughout fileHost fileDisk fileTree (cstr "//./../b") :=
  (resolvesThroughout_iff fileHost fileDisk fileTree fileTree_onImage _ (by decide)).mpr
    (DirTree.straight_dir (show fileTree.first 2 (cstr ".") = some ⟨2, 12, 2, cstr "."⟩ by decide)
      (by decide) (DirTree.straight_dir
        (show fileTree.first 2 (cstr "..") = some ⟨2, 12, 2, cstr ".."⟩ by decide) (by decide)
        (DirTree.straight_missing (show fileTree.first 2 (cstr "b") = none by decide))))

/-- A file in a path is passed over. -/
theorem fileTree_not_resolvesPath :
    OnImage fileHost fileDisk fileTree ∧
      fileTree.resolve (components (cstr "/a")) ext2RootInode = none ∧
      ext2Dir fileHost fileDisk (cstr "/a") = .ok (some ([2], 2)) ∧
      ¬ResolvesPath fileHost fileDisk fileTree (cstr "/a") := by
  have hnone : fileTree.resolve (components (cstr "/a")) ext2RootInode = none := by decide
  have hdir : fileTree.dir ext2RootInode = some [⟨2, rootRecords⟩] := rfl
  have hrun : ext2Dir fileHost fileDisk (cstr "/a") = .ok (some ([2], 2)) := by
    have hfirst : fileTree.first ext2RootInode (cstr "a") = some ⟨11, 4072, 1, cstr "a"⟩ := by
      decide
    obtain ⟨rest, hcomp, -, -, hloop⟩ := fileTree_onImage.loop_found hdir
      (show 0 ∉ cstr "/a" by decide) (show components (cstr "/a") = [cstr "a"] by decide) hfirst 2
    exact hloop.trans (fileTree_onImage.loop_nil hdir hcomp)
  refine ⟨fileTree_onImage, hnone, hrun, fun hres => ?_⟩
  rw [ResolvesPath, hrun, DirTree.expected, hnone] at hres
  cases hres

end XenAccess.Disk
