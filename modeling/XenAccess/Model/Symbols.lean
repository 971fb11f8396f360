import XenAccess.Lib.CBuffer
import XenAccess.Model.Types

/-!
# Symbols of a Linux guest

`xa_symbols.c`, `linux_symbols.c`, `linux_domain_info.c` and the xenstore queries of
`xa_domain_info.c` that they and the initialisation use.

`get_symbol_row` works on one buffer of `maxRowLength` bytes that it neither clears nor
checks for a terminator, so the buffer with its earlier contents is an argument here.
-/

namespace XenAccess

variable (h : Host)

/-! ## Characters and numbers -/

def isspace (c : U8) : Bool := c == 32 || (9 ≤ c && c ≤ 13)

/-- The value of a hexadecimal digit. -/
def xdigit (c : U8) : Option Nat :=
  if 48 ≤ c && c ≤ 57 then some (c.toNat - 48)
  else if 97 ≤ c && c ≤ 102 then some (c.toNat - 87)
  else if 65 ≤ c && c ≤ 70 then some (c.toNat - 55)
  else none

/-- Leading digits below `base`, as a number. -/
def digitsValue (base : Nat) : CStr → Nat → Nat
  | [], acc => acc
  | c :: cs, acc =>
    match xdigit c with
    | some d => if d < base then digitsValue base cs (acc * base + d) else acc
    | none => acc

/-- The sign and the rest of a number after white space. -/
def splitSign (s : CStr) : Bool × CStr :=
  match s.dropWhile isspace with
  | 45 :: rest => (true, rest)
  | 43 :: rest => (false, rest)
  | rest => (false, rest)

/-- A number in base 16 may start with `0x`. -/
def dropHexPrefix (s : CStr) : CStr :=
  match s with
  | 48 :: x :: d :: rest =>
    if (x == 120 || x == 88) && (xdigit d).isSome then d :: rest else s
  | _ => s

/-- `strtoul(s, NULL, 16)` with a 32-bit `unsigned long`: too large a number gives
`ULONG_MAX`. -/
def strtoul16 (s : CStr) : U32 :=
  let (neg, rest) := splitSign s
  let value := digitsValue 16 (dropHexPrefix rest) 0
  if 2 ^ 32 ≤ value then 0xFFFFFFFF
  else if neg then -BitVec.ofNat 32 value else BitVec.ofNat 32 value

/-- `strtol(s, NULL, 10)` with a 32-bit `long`: too large a number gives `LONG_MAX` or
`LONG_MIN`. -/
def strtol10 (s : CStr) : U32 :=
  let (neg, rest) := splitSign s
  let value := digitsValue 10 rest 0
  if neg then (if 2 ^ 31 < value then 0x80000000 else -BitVec.ofNat 32 value)
  else if 2 ^ 31 ≤ value then 0x7FFFFFFF else BitVec.ofNat 32 value

/-! ## Rows of a symbol file -/

/-- `fgets` with a buffer of `maxRowLength` bytes: the bytes read and what is left of the
file. -/
def fgets : List U8 → Option (List U8 × List U8)
  | [] => none
  | f =>
    let line := (f.take (maxRowLength - 1)).takeWhile (· != 10)
    let n := if line.length < (f.take (maxRowLength - 1)).length then line.length + 1
      else line.length
    some (f.take n, f.drop n)

/-- The buffer after a read: the bytes, a terminator, and the old contents behind it. -/
def fillRow (row bytes : List U8) : List U8 := bytes ++ 0 :: row.drop (bytes.length + 1)

/-- Overwrite `n` bytes at `curpos` by terminators. -/
def blank (row : List U8) (curpos n : Nat) : List U8 :=
  row.take curpos ++ List.replicate n 0 ++ row.drop (curpos + n)

/-- Search for the field number `position`: each run of white space on the way is
overwritten. The result is the buffer, the number of fields still to skip, and the position
reached. The first argument bounds the rounds. -/
def skipFields : Nat → List U8 → Nat → Nat → List U8 × Nat × Nat
  | 0, row, position, curpos => (row, position, curpos)
  | n + 1, row, position, curpos =>
    if 0 < position ∧ curpos < maxRowLength then
      if isspace (row.getD curpos 0) then
        let run := ((row.drop curpos).takeWhile isspace).length
        skipFields n (blank row curpos run) (position - 1) (curpos + run)
      else skipFields n row position (curpos + 1)
    else (row, position, curpos)

/-- The end of the field at `curpos`: the first white space before the end of the buffer, if
there is one. -/
def fieldEnd (row : List U8) (curpos : Nat) : Option Nat :=
  (((row.take maxRowLength).drop curpos).findIdx? isspace).map (· + curpos)

/-- `get_symbol_row`: the buffer holding the row found. The first argument bounds the number
of reads. A row with too few fields ends the search. -/
def getSymbolRow : Nat → List U8 → List U8 → CStr → Nat → Option (List U8)
  | 0, _, _, _, _ => none
  | n + 1, f, row, symbol, position =>
    match fgets f with
    | none => none
    | some (bytes, rest) =>
      let (row, position', curpos) := skipFields maxRowLength (fillRow row bytes) position 0
      if position' = 0 then
        let row := match fieldEnd row curpos with
          | some i => blank row i 1
          | none => row
        if strncmpEq (cstrOf (row.drop curpos)) symbol maxRowLength then some row
        else getSymbolRow n rest row symbol position
      else none

/-! ## Xenstore -/

/-- `%d` of a 32-bit integer. -/
def sprintfD (n : U32) : CStr := cstr (toString n.toInt)

/-- `%s` of a string that may be `NULL`. -/
def sprintfS (s : Option CStr) : CStr := s.getD (cstr "(null)")

/-- `xa_get_vmpath`. -/
def xaGetVmpath (id : U32) : Option CStr :=
  h.xsRead (cstr "/local/domain/" ++ sprintfD id ++ cstr "/vm")

/-- `xa_get_kernel_name`. -/
def xaGetKernelName (id : U32) : Option CStr :=
  h.xsRead (sprintfS (xaGetVmpath h id) ++ cstr "/image/kernel")

/-- `xa_ishvm`. -/
def xaIshvm (id : U32) : Bool :=
  let vmpath := sprintfS (xaGetVmpath h id)
  let ends (path suffix : CStr) : Bool :=
    match h.xsRead (vmpath ++ path) with
    | some ostype => suffix.isSuffixOf ostype
    | none => false
  ends (cstr "/image/kernel") (cstr "hvmloader") || ends (cstr "/image/ostype") (cstr "hvm")

/-- The path that the prediction leaves out. -/
def hvmloader : CStr := cstr "/usr/lib/xen/boot/hvmloader"

/-- The loop of `linux_predict_sysmap_name` over the kernel path, `copied` being the buffer
so far. The first argument is the number of rounds left. -/
def replaceVmlinuz : Nat → (kernel copied : List U8) → CStr
  | 0, _, copied => cstrOf copied
  | n + 1, kernel, copied =>
    if kernel.take 6 = cstr "vmlinu" then
      cstrOf copied ++ cstr "System.map" ++ cstrOf (kernel.drop 7)
    else replaceVmlinuz n (kernel.drop 1) (copied ++ kernel.take 1)

/-- `linux_predict_sysmap_name`. -/
def linuxPredictSysmapName (id : U32) : Option CStr :=
  match xaGetKernelName h id with
  | none => none
  | some kernel =>
    if kernel = hvmloader then none
    else some (replaceVmlinuz (kernel.length + 4) (kernel ++ 0 :: h.heapTail) [])

/-! ## System.map -/

/-- `m.xen.domain_id`. In file mode that word of the union is `m.file.size`. -/
def XaParams.xenDomainId (p : XaParams) : U32 :=
  match p.mode with
  | .xen => p.domainId
  | .file => p.size

/-- The System.map that is read: a missing or empty name is predicted from the kernel. -/
def sysmapName (p : XaParams) (sysmap : Option CStr) : Option CStr :=
  match sysmap with
  | none => linuxPredictSysmapName h p.xenDomainId
  | some [] => linuxPredictSysmapName h p.xenDomainId
  | some name => some name

/-- The address of a symbol in a System.map. -/
def sysmapAddress (sysmap : Option CStr) (symbol : CStr) : Option U32 :=
  match sysmap.bind h.fopen with
  | none => none
  | some f =>
    (getSymbolRow (f.length + 1) f h.mallocRow symbol 2).map fun row => strtoul16 (cstrOf row)

/-- `linux_system_map_symbol_to_address`. -/
def linuxSystemMapSymbolToAddress (symbol : CStr) : XaM (Option U32) := fun s =>
  let sysmap := sysmapName h s.toXaParams s.sysmap
  .ok (sysmapAddress h sysmap symbol, { s with sysmap })

/-! ## The predicted name, access by access

`linux_predict_sysmap_name` once more, on the memory it works in: the string of the kernel,
which can be read up to its terminator, and the buffer of the result. `length` is an `int`. -/

section

open CBuffer

/-- The loop of `linux_predict_sysmap_name` from `i` on; `memory` is what can be read from
`kernel` on. The second argument is the number of rounds left. -/
def predictLoop (memory : List U8) : Nat → Nat → List U8 → Except CBuffer.Fault (List U8)
  | 0, _, sysmap => .ok sysmap
  | rounds + 1, i, sysmap => do
    if ← strncmp (memory.drop i) (cstr "vmlinu") then
      let sysmap ← strcat sysmap (cstr "System.map" ++ [0])
      strcat sysmap (memory.drop (i + 7))
    else
      let c ← read (memory.drop i)
      let sysmap ← write sysmap i c
      predictLoop memory rounds (i + 1) sysmap

/-- `linux_predict_sysmap_name` on the string from `xa_get_kernel_name`, with the buffer it
returns. -/
def linuxPredictSysmapBuffer (kernel : Option CStr) :
    Except CBuffer.Fault (Option (List U8)) :=
  match kernel with
  | none => .ok none
  | some kernel =>
    if kernel = hvmloader then .ok none
    else do
      let length : U32 := BitVec.ofNat 32 (kernel.length + 4)
      let sysmap := List.replicate length.toNat 0
      let sysmap ← predictLoop (kernel ++ [0]) length.toInt.toNat 0 sysmap
      return some sysmap

end

end XenAccess
