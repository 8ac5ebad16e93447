import Hero.Toolchain.Ir

/-!
# The support functions for 64-bit addresses

Loads and stores of 8, 16, 32 and 64 bits at host addresses.  The ones of up to 32 bits are one
memory operation with the upper half of the address in the address extension register, the ones of
64 bits are two of 32 bits, the lower half first.
-/

namespace Hero.Toolchain

def ompLoadPrefix : String := "hero_load"

def ompStorePrefix : String := "hero_store"

def loadName (bits : Nat) : String := ompLoadPrefix ++ "_uint" ++ toString bits

def storeName (bits : Nat) : String := ompStorePrefix ++ "_uint" ++ toString bits

/-- The widths there are support functions for. -/
def supportWidths : List Nat := [8, 16, 32, 64]

namespace Target

variable (t : Target)

def heroLoadUint (bits addr : Nat) (h : Heap) : Nat × Heap :=
  if bits = 64 then
    let (lower, h) := t.loadBits t.dl.hostAS 32 addr h
    let (upper, h) := t.loadBits t.dl.hostAS 32 ((addr + 4) % 2 ^ 64) h
    (upper <<< 32 ||| lower, h)
  else t.loadBits t.dl.hostAS bits addr h

def heroStoreUint (bits addr val : Nat) (h : Heap) : Heap :=
  if bits = 64 then
    let h := t.storeBits t.dl.hostAS 32 addr (val % 2 ^ 32) h
    t.storeBits t.dl.hostAS 32 ((addr + 4) % 2 ^ 64) ((val >>> 32) % 2 ^ 32) h
  else t.storeBits t.dl.hostAS bits addr val h

/-- A call of a support function by its name. -/
def support (f : String) (args : List Nat) (h : Heap) : Option (Nat × Heap) :=
  match supportWidths.find? (f = loadName ·), supportWidths.find? (f = storeName ·), args with
  | some bits, _, [addr] => some (t.heroLoadUint bits addr h)
  | none, some bits, [addr, val] => some (0, t.heroStoreUint bits addr val h)
  | _, _, _ => none

variable {t} {bits addr val : Nat} {h : Heap}

/-- The two halves of a load of 64 bits make the load they stand for. -/
theorem heroLoadUint_eq (hhost : t.dl.pointerBits t.dl.hostAS = 64) (hbits : bits ∈ supportWidths) :
    t.heroLoadUint bits addr h = t.loadBits t.dl.hostAS bits addr h := by
  unfold heroLoadUint
  split
  · rename_i h64
    subst h64
    have hwrap : ∀ g, t.load t.dl.hostAS 4 ((addr + 4) % 2 ^ 64) g =
        t.load t.dl.hostAS 4 (addr + 4) g := by
      intro g
      apply load_congr
      rw [hhost, Nat.mod_mod]
    simp only [loadBits, Nat.reduceAdd, Nat.reduceDiv, hwrap]
    rw [show (8 : Nat) = 4 + 4 from rfl, load_add]
    have hlower : (t.load t.dl.hostAS 4 addr h).1 < 256 ^ 4 := load_lt
    have hupper : (t.load t.dl.hostAS 4 (addr + 4) (t.load t.dl.hostAS 4 addr h).2).1 < 256 ^ 4 :=
      load_lt
    rw [Nat.mod_eq_of_lt (by omega), Nat.mod_eq_of_lt (by omega), Nat.mod_eq_of_lt (by omega),
      ← Nat.shiftLeft_add_eq_or_of_lt (by omega), Nat.shiftLeft_eq]
    congr 1
    omega
  · rfl

theorem heroStoreUint_eq (hhost : t.dl.pointerBits t.dl.hostAS = 64)
    (hbits : bits ∈ supportWidths) :
    t.heroStoreUint bits addr val h = t.storeBits t.dl.hostAS bits addr val h := by
  unfold heroStoreUint
  split
  · rename_i h64
    subst h64
    have hwrap : ∀ v g, t.store t.dl.hostAS 4 ((addr + 4) % 2 ^ 64) v g =
        t.store t.dl.hostAS 4 (addr + 4) v g := by
      intro v g
      apply store_congr
      rw [hhost, Nat.mod_mod]
    simp only [storeBits, Nat.reduceAdd, Nat.reduceDiv, hwrap]
    rw [store_mod (by omega), store_mod (by omega), store_mod (by omega), store_mod (by omega),
      store_mod (by omega), Nat.shiftRight_eq_div_pow, show (8 : Nat) = 4 + 4 from rfl, store_add,
      show (2 : Nat) ^ 32 = 256 ^ 4 by norm_num]
  · rfl

end Target

theorem find_loadName (hbits : bits ∈ supportWidths) :
    supportWidths.find? (loadName bits = loadName ·) = some bits := by
  simp only [supportWidths, List.mem_cons, List.not_mem_nil, or_false] at hbits
  obtain rfl | rfl | rfl | rfl := hbits <;> decide

theorem find_storeName (hbits : bits ∈ supportWidths) :
    supportWidths.find? (storeName bits = loadName ·) = none ∧
      supportWidths.find? (storeName bits = storeName ·) = some bits := by
  simp only [supportWidths, List.mem_cons, List.not_mem_nil, or_false] at hbits
  obtain rfl | rfl | rfl | rfl := hbits <;> decide

theorem Target.support_load {t : Target} {bits addr : Nat} {h : Heap}
    (hbits : bits ∈ supportWidths) :
    t.support (loadName bits) [addr] h = some (t.heroLoadUint bits addr h) := by
  simp only [support, find_loadName hbits]

theorem Target.support_store {t : Target} {bits addr val : Nat} {h : Heap}
    (hbits : bits ∈ supportWidths) :
    t.support (storeName bits) [addr, val] h = some (0, t.heroStoreUint bits addr val h) := by
  obtain ⟨hload, hstore⟩ := find_storeName hbits
  simp only [support, hload, hstore]

end Hero.Toolchain
