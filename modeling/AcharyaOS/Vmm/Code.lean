import Mathlib.Algebra.Group.Nat.Defs
import Mathlib.Logic.Function.Basic

/-!
# The kernel page tables

The five static tables of `memory/vmm.c` and the functions that fill them.
-/

namespace AcharyaOS.Vmm

def vmmPageSize2m : UInt64 := 0x200000

def vmmIdentityMapSize : UInt64 := 1024 * 1024 * 1024

def pagePresent : UInt64 := 1

def pageWritable : UInt64 := 2

def pageUser : UInt64 := 4

def pageHuge2m : UInt64 := 128

inductive VmmTable
  | kernelPml4 | kernelPdpt | kernelPd | userPdpt | userPd
  deriving DecidableEq

def VmmTable.all : List VmmTable := [.kernelPml4, .kernelPdpt, .kernelPd, .userPdpt, .userPd]

/-- Where the linker put the tables: apart, page aligned, inside physical memory. -/
structure VmmLayout where
  address : VmmTable → UInt64
  injective : Function.Injective address
  aligned : ∀ t, (address t).toNat % 4096 = 0
  lt : ∀ t, (address t).toNat < 2 ^ 52

/-- The five `page_table_t` arrays, `mapped_pages` and the register `cr3`. -/
structure VmmState where
  tables : VmmTable → Fin 512 → UInt64
  mappedPages : UInt64
  cr3 : UInt64

/-- The assignment `t[i] = entry`. -/
def VmmState.setEntry (s : VmmState) (t : VmmTable) (i : Fin 512) (entry : UInt64) : VmmState :=
  { s with tables := Function.update s.tables t (Function.update (s.tables t) i entry) }

/-- An array index that the code has masked with `0x1FF`. -/
def tableIndex (x : UInt64) : Fin 512 := Fin.ofNat 512 x.toNat

/-- The loop of `vmm_init` over `kernel_pd`. -/
def fillKernelPd (s : VmmState) (pages : Nat) : VmmState :=
  (List.range pages).foldl (fun s i =>
    s.setEntry .kernelPd (Fin.ofNat 512 i)
      (UInt64.ofNat i * vmmPageSize2m ||| pagePresent ||| pageWritable ||| pageHuge2m)) s

def vmmInit (L : VmmLayout) (s : VmmState) : VmmState :=
  let s := { s with tables := fun _ _ => 0 }
  let s := s.setEntry .kernelPml4 0 (L.address .kernelPdpt ||| pagePresent ||| pageWritable)
  let s := s.setEntry .kernelPdpt 0 (L.address .kernelPd ||| pagePresent ||| pageWritable)
  let s := s.setEntry .kernelPml4 1
    (L.address .userPdpt ||| pagePresent ||| pageWritable ||| pageUser)
  let s := { s with mappedPages := vmmIdentityMapSize / vmmPageSize2m }
  let s := fillKernelPd s s.mappedPages.toNat
  { s with cr3 := L.address .kernelPml4 }

/-- `vmm_map_user_2m` with its return value. -/
def vmmMapUser2m (L : VmmLayout) (s : VmmState) (virtualAddress physicalAddress : UInt64) :
    VmmState × Int :=
  if virtualAddress % vmmPageSize2m != 0 || physicalAddress % vmmPageSize2m != 0 then (s, -1)
  else if virtualAddress < vmmIdentityMapSize then (s, -1)
  else
    let pml4Index := (virtualAddress >>> 39) &&& 0x1FF
    let pdptIndex := (virtualAddress >>> 30) &&& 0x1FF
    let pdIndex := (virtualAddress >>> 21) &&& 0x1FF
    if pml4Index != 1 then (s, -1)
    else if pdptIndex != 0 then (s, -1)
    else
      let s :=
        if s.tables .kernelPml4 (tableIndex pml4Index) &&& pagePresent == 0 then
          s.setEntry .kernelPml4 (tableIndex pml4Index)
            (L.address .userPdpt ||| pagePresent ||| pageWritable ||| pageUser)
        else s
      let s :=
        if s.tables .userPdpt (tableIndex pdptIndex) &&& pagePresent == 0 then
          s.setEntry .userPdpt (tableIndex pdptIndex)
            (L.address .userPd ||| pagePresent ||| pageWritable ||| pageUser)
        else s
      (s.setEntry .userPd (tableIndex pdIndex)
        (physicalAddress ||| pagePresent ||| pageWritable ||| pageUser ||| pageHuge2m), 0)

def vmmTranslateIdentity (s : VmmState) (virtualAddress : UInt64) : UInt64 :=
  if virtualAddress ≥ vmmIdentityMapSize then 0
  else
    let entry := s.tables .kernelPd (tableIndex ((virtualAddress >>> 21) &&& 0x1FF))
    if entry &&& pagePresent == 0 || entry &&& pageHuge2m == 0 then 0
    else (entry &&& 0x000FFFFFFFFFF000) + (virtualAddress &&& (vmmPageSize2m - 1))

/-- `vmm_self_test`, which reads the table address back from `cr3`. -/
def vmmSelfTest (L : VmmLayout) (s : VmmState) : Bool :=
  if s.cr3 != L.address .kernelPml4 then false
  else if vmmTranslateIdentity s 0x100000 != 0x100000 then false
  else if vmmTranslateIdentity s 0xB8000 != 0xB8000 then false
  else if vmmTranslateIdentity s vmmIdentityMapSize != 0 then false
  else true

end AcharyaOS.Vmm
