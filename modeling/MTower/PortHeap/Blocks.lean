import MTower.Lib.Memory
import MTower.Lib.Exec
import MTower.Lib.Chunks

/-!
# The secure heap

`heap_4.c` of the secure world and the functions of `tee_user_mem.c` above it.  The allocator keeps a
list of the free blocks inside the array it hands out: a block starts with a link to the next free
block and its size, `xStart` is the head of the list and `pxEnd` its last element.  All of it lies in
one flat byte memory, at addresses that the linker chose.  An access to anything but an aligned word
of the array or of the list head is a fault, and so is a loop that takes more than `rounds` turns.

* `prvHeapInit`, `prvInsertBlockIntoFreeList`, `pvPortMalloc`, `vPortFree`, `vPortGetHeapStats`;
* `teeUserMemAlloc`, `teeUserMemFree`  what `TEE_Malloc` and `TEE_Free` call.
-/

set_option linter.unusedVariables false

namespace MTower.PortHeap
open Lib

/-! ## state -/

/-- `size_t` arithmetic -/
@[irreducible]
def add (x y : Nat) : Nat := (x + y) % 2 ^ 32

@[irreducible]
def sub (x y : Nat) : Nat := (x + (2 ^ 32 - y)) % 2 ^ 32

/-- `x & ~mask` -/
@[irreducible]
def clear (x mask : Nat) : Nat := x &&& (2 ^ 32 - 1 - mask)

/-- addresses that the linker chose, and a bound for loops -/
structure Config where
  ucHeap : Nat
  configTOTAL_HEAP_SIZE : Nat
  xStart : Nat
  rounds : Nat

structure State where
  mem : Mem
  pxEnd : Nat
  xFreeBytesRemaining : Nat
  xMinimumEverFreeBytesRemaining : Nat
  xNumberOfSuccessfulAllocations : Nat
  xNumberOfSuccessfulFrees : Nat
  xBlockAllocatedBit : Nat

namespace State

/-- zeroed variables -/
def boot (m : Mem) : State := ⟨m, 0, 0, 0, 0, 0, 0⟩

def withMem (s : State) (m : Mem) : State := { s with mem := m }

def withEnd (s : State) (p : Nat) : State := { s with pxEnd := p }

@[simp] theorem withEnd_mem (s : State) (p : Nat) : (s.withEnd p).mem = s.mem := rfl

@[simp] theorem withMem_mem (s : State) (m : Mem) : (s.withMem m).mem = m := rfl

@[simp] theorem withMem_pxEnd (s : State) (m : Mem) : (s.withMem m).pxEnd = s.pxEnd := rfl

@[simp] theorem withMem_withMem (s : State) (m m' : Mem) :
    (s.withMem m).withMem m' = s.withMem m' := rfl

/-- `xFreeBytesRemaining -= size` -/
def charge (s : State) (size : Nat) : State :=
  { s with xFreeBytesRemaining := sub s.xFreeBytesRemaining size }

/-- `xFreeBytesRemaining += size` -/
def refund (s : State) (size : Nat) : State :=
  { s with xFreeBytesRemaining := add s.xFreeBytesRemaining size }

def noteMinimum (s : State) : State :=
  { s with xMinimumEverFreeBytesRemaining :=
      if s.xFreeBytesRemaining < s.xMinimumEverFreeBytesRemaining then s.xFreeBytesRemaining
      else s.xMinimumEverFreeBytesRemaining }

def noteAllocation (s : State) : State :=
  { s with xNumberOfSuccessfulAllocations := add s.xNumberOfSuccessfulAllocations 1 }

def noteFree (s : State) : State :=
  { s with xNumberOfSuccessfulFrees := add s.xNumberOfSuccessfulFrees 1 }

end State

inductive Fault where
  | access
  | endless
deriving DecidableEq, Repr

abbrev M (α : Type) := Exec Fault State α

def portBYTE_ALIGNMENT : Nat := 8
def portBYTE_ALIGNMENT_MASK : Nat := 0x0007
def xHeapStructSize : Nat := 8
def heapMINIMUM_BLOCK_SIZE : Nat := xHeapStructSize <<< 1
def portMAX_DELAY : Nat := 0xffffffff

/-! ## links -/

/-- a word of the array or of the list head -/
def Config.Owns (c : Config) (p : Nat) : Prop :=
  p % 4 = 0 ∧ ((Range.mk p 4).Within c.ucHeap (c.ucHeap + c.configTOTAL_HEAP_SIZE) ∨
    (Range.mk p 4).Within c.xStart (c.xStart + 8))

instance (c : Config) (p : Nat) : Decidable (c.Owns p) :=
  inferInstanceAs (Decidable (_ ∧ (_ ∨ _)))

variable (c : Config)

def load (p : Nat) : M Nat := do
  let s ← get
  if c.Owns p then pure (s.mem.load32 p) else throw .access

def store (p w : Nat) : M Unit :=
  if c.Owns p then modify fun s => s.withMem (s.mem.store32 p w) else throw .access

def pxNextFreeBlock (p : Nat) : M Nat := load c p
def xBlockSize (p : Nat) : M Nat := load c (p + 4)
def setPxNextFreeBlock (p w : Nat) : M Unit := store c p w
def setXBlockSize (p w : Nat) : M Unit := store c (p + 4) w

/-! ## `heap_4.c` -/

/-- the first aligned address of the array -/
def pucAlignedHeap : Nat :=
  if c.ucHeap &&& portBYTE_ALIGNMENT_MASK ≠ 0 then
    clear (add c.ucHeap (portBYTE_ALIGNMENT - 1)) portBYTE_ALIGNMENT_MASK
  else c.ucHeap

def xTotalHeapSize : Nat :=
  if c.ucHeap &&& portBYTE_ALIGNMENT_MASK ≠ 0 then
    sub c.configTOTAL_HEAP_SIZE (sub (pucAlignedHeap c) c.ucHeap)
  else c.configTOTAL_HEAP_SIZE

/-- the end marker that `prvHeapInit` computes -/
def endAddress : Nat :=
  clear (sub (add (pucAlignedHeap c) (xTotalHeapSize c)) xHeapStructSize) portBYTE_ALIGNMENT_MASK

def prvHeapInit : M Unit := do
  setPxNextFreeBlock c c.xStart (pucAlignedHeap c)
  setXBlockSize c c.xStart 0
  modify fun s => s.withEnd (endAddress c)
  setXBlockSize c (endAddress c) 0
  setPxNextFreeBlock c (endAddress c) 0
  setXBlockSize c (pucAlignedHeap c) (sub (endAddress c) (pucAlignedHeap c))
  setPxNextFreeBlock c (pucAlignedHeap c) (endAddress c)
  let size ← xBlockSize c (pucAlignedHeap c)
  modify fun s => { s with
    xMinimumEverFreeBytesRemaining := size
    xFreeBytesRemaining := size
    xBlockAllocatedBit := 1 <<< (4 * 8 - 1) }

/-- `for (pxIterator = &xStart; pxIterator->pxNextFreeBlock < pxBlockToInsert; …)` -/
def iterate (pxBlockToInsert : Nat) : Nat → Nat → M Nat
  | 0, _ => throw .endless
  | n + 1, pxIterator => do
    let next ← pxNextFreeBlock c pxIterator
    if next < pxBlockToInsert then iterate pxBlockToInsert n next else pure pxIterator

/-- joins the block to the one in front of it; the block that it belongs to then -/
def joinFront (pxIterator pxBlockToInsert : Nat) : M Nat := do
  let size ← xBlockSize c pxIterator
  if add pxIterator size = pxBlockToInsert then do
    let more ← xBlockSize c pxBlockToInsert
    setXBlockSize c pxIterator (add size more)
    pure pxIterator
  else pure pxBlockToInsert

/-- joins the block to the one behind it, and links it to what follows -/
def joinBehind (pxIterator pxBlockToInsert : Nat) : M Unit := do
  let s ← get
  let size ← xBlockSize c pxBlockToInsert
  let next ← pxNextFreeBlock c pxIterator
  if add pxBlockToInsert size = next then
    if next ≠ s.pxEnd then do
      let more ← xBlockSize c next
      setXBlockSize c pxBlockToInsert (add size more)
      let after ← pxNextFreeBlock c next
      setPxNextFreeBlock c pxBlockToInsert after
    else setPxNextFreeBlock c pxBlockToInsert s.pxEnd
  else setPxNextFreeBlock c pxBlockToInsert next

def prvInsertBlockIntoFreeList (pxBlockToInsert : Nat) : M Unit := do
  let pxIterator ← iterate c pxBlockToInsert c.rounds c.xStart
  let block ← joinFront c pxIterator pxBlockToInsert
  joinBehind c pxIterator block
  if pxIterator ≠ block then setPxNextFreeBlock c pxIterator block else pure ()

/-- the size of the block for a request, `0` when it does not fit in a `size_t` -/
def blockSize (xWantedSize : Nat) : Nat :=
  if 0 < xWantedSize ∧ xWantedSize < add xWantedSize xHeapStructSize then
    if add xWantedSize xHeapStructSize &&& portBYTE_ALIGNMENT_MASK ≠ 0 then
      if add xWantedSize xHeapStructSize < add (add xWantedSize xHeapStructSize)
          (portBYTE_ALIGNMENT - (add xWantedSize xHeapStructSize &&& portBYTE_ALIGNMENT_MASK)) then
        add (add xWantedSize xHeapStructSize)
          (portBYTE_ALIGNMENT - (add xWantedSize xHeapStructSize &&& portBYTE_ALIGNMENT_MASK))
      else 0
    else add xWantedSize xHeapStructSize
  else 0

/-- the first block that is large enough, or the end marker, with the block in front of it -/
def firstFit (xWantedSize : Nat) : Nat → Nat → Nat → M (Nat × Nat)
  | 0, _, _ => throw .endless
  | n + 1, pxPreviousBlock, pxBlock => do
    let size ← xBlockSize c pxBlock
    if size < xWantedSize then do
      let next ← pxNextFreeBlock c pxBlock
      if next ≠ 0 then firstFit xWantedSize n pxBlock next else pure (pxPreviousBlock, pxBlock)
    else pure (pxPreviousBlock, pxBlock)

/-- what is left of a block that is larger than wanted goes back to the list -/
def splitBlock (pxBlock xWantedSize : Nat) : M Unit := do
  let size ← xBlockSize c pxBlock
  if heapMINIMUM_BLOCK_SIZE < sub size xWantedSize then do
    setXBlockSize c (add pxBlock xWantedSize) (sub size xWantedSize)
    setXBlockSize c pxBlock xWantedSize
    prvInsertBlockIntoFreeList c (add pxBlock xWantedSize)
  else pure ()

/-- the block leaves the list and gets its owner -/
def takeBlock (pxPreviousBlock pxBlock xWantedSize : Nat) : M Nat := do
  let first ← pxNextFreeBlock c pxPreviousBlock
  let next ← pxNextFreeBlock c pxBlock
  setPxNextFreeBlock c pxPreviousBlock next
  splitBlock c pxBlock xWantedSize
  let size ← xBlockSize c pxBlock
  modify fun s => s.charge size
  modify fun s => s.noteMinimum
  let s ← get
  setXBlockSize c pxBlock (size ||| s.xBlockAllocatedBit)
  setPxNextFreeBlock c pxBlock 0
  modify fun s => s.noteAllocation
  pure (add first xHeapStructSize)

/-- the search and what follows it -/
def allocate (xWantedSize : Nat) : M Nat := do
  let first ← pxNextFreeBlock c c.xStart
  let found ← firstFit c xWantedSize c.rounds c.xStart first
  let s ← get
  if found.2 ≠ s.pxEnd then takeBlock c found.1 found.2 xWantedSize else pure 0

def heapInitialised : M Unit := do
  let s ← get
  if s.pxEnd = 0 then prvHeapInit c else pure ()

def pvPortMalloc (xWantedSize : Nat) : M Nat := do
  heapInitialised c
  let s ← get
  if xWantedSize &&& s.xBlockAllocatedBit = 0 then
    if 0 < blockSize xWantedSize ∧ blockSize xWantedSize ≤ s.xFreeBytesRemaining then
      allocate c (blockSize xWantedSize)
    else pure 0
  else pure 0

/-- the block goes back to the list -/
def giveBack (pxLink : Nat) : M Unit := do
  let size ← xBlockSize c pxLink
  let s ← get
  setXBlockSize c pxLink (clear size s.xBlockAllocatedBit)
  modify fun t => t.refund (clear size s.xBlockAllocatedBit)
  prvInsertBlockIntoFreeList c pxLink
  modify fun s => s.noteFree

def vPortFree (pv : Nat) : M Unit :=
  if pv ≠ 0 then do
    let size ← xBlockSize c (sub pv xHeapStructSize)
    let s ← get
    if size &&& s.xBlockAllocatedBit ≠ 0 then do
      let next ← pxNextFreeBlock c (sub pv xHeapStructSize)
      if next = 0 then giveBack c (sub pv xHeapStructSize) else pure ()
    else pure ()
  else pure ()

def xPortGetFreeHeapSize : M Nat := do
  let s ← get
  pure s.xFreeBytesRemaining

def xPortGetMinimumEverFreeHeapSize : M Nat := do
  let s ← get
  pure s.xMinimumEverFreeBytesRemaining

structure HeapStats where
  xAvailableHeapSpaceInBytes : Nat
  xSizeOfLargestFreeBlockInBytes : Nat
  xSizeOfSmallestFreeBlockInBytes : Nat
  xNumberOfFreeBlocks : Nat
  xMinimumEverFreeBytesRemaining : Nat
  xNumberOfSuccessfulAllocations : Nat
  xNumberOfSuccessfulFrees : Nat
deriving DecidableEq, Repr

/-- `xBlocks`, `xMaxSize` and `xMinSize` -/
structure Tally where
  xBlocks : Nat
  xMaxSize : Nat
  xMinSize : Nat
deriving DecidableEq, Repr

def Tally.count (y : Tally) (size : Nat) : Tally where
  xBlocks := add y.xBlocks 1
  xMaxSize := if y.xMaxSize < size then size else y.xMaxSize
  xMinSize := if size < y.xMinSize then size else y.xMinSize

/-- `do … while (pxBlock != pxEnd)` -/
def tally : Nat → Nat → Tally → M Tally
  | 0, _, _ => throw .endless
  | n + 1, pxBlock, y => do
    let size ← xBlockSize c pxBlock
    let next ← pxNextFreeBlock c pxBlock
    let s ← get
    if next ≠ s.pxEnd then tally n next (y.count size) else pure (y.count size)

def tallied (pxBlock : Nat) : M Tally :=
  if pxBlock ≠ 0 then tally c c.rounds pxBlock ⟨0, 0, portMAX_DELAY⟩
  else pure ⟨0, 0, portMAX_DELAY⟩

def vPortGetHeapStats : M HeapStats := do
  let pxBlock ← pxNextFreeBlock c c.xStart
  let y ← tallied c pxBlock
  let s ← get
  pure {
    xAvailableHeapSpaceInBytes := s.xFreeBytesRemaining
    xSizeOfLargestFreeBlockInBytes := y.xMaxSize
    xSizeOfSmallestFreeBlockInBytes := y.xMinSize
    xNumberOfFreeBlocks := y.xBlocks
    xMinimumEverFreeBytesRemaining := s.xMinimumEverFreeBytesRemaining
    xNumberOfSuccessfulAllocations := s.xNumberOfSuccessfulAllocations
    xNumberOfSuccessfulFrees := s.xNumberOfSuccessfulFrees }

/-! ## `tee_user_mem.c` -/

def teeMallocFillZero : Nat := 0x00000000
def teeUserMemHintNoFillZero : Nat := 0x80000000

/-- `memset(p, 0, len)` -/
def zeroFill (p len : Nat) : M Unit :=
  if (Range.mk p len).Within c.ucHeap (c.ucHeap + c.configTOTAL_HEAP_SIZE) then
    modify fun s => s.withMem (s.mem.overlay ⟨p, len⟩ fun _ => 0)
  else throw .access

def filled (p len hint : Nat) : M Nat :=
  if p = 0 then pure 0
  else if hint = teeMallocFillZero then do
    zeroFill c p len
    pure p
  else pure p

def teeUserMemAlloc (len hint : Nat) : M Nat :=
  if hint = teeMallocFillZero ∨ hint = teeUserMemHintNoFillZero then do
    let p ← pvPortMalloc c len
    filled c p len hint
  else pure 0

def teeUserMemFree (buffer : Nat) : M Unit := vPortFree c buffer

end MTower.PortHeap
