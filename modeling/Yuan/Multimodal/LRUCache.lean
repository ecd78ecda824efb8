import Yuan.Lib.Dict
import Mathlib.Algebra.Order.Ring.Rat
import Mathlib.Data.Finset.Erase
import Mathlib.Data.Finset.Insert
import Mathlib.Tactic.Linarith

/-!
# `LRUCache`

A subclass of `cachetools.LRUCache` that can pin keys and touch them. The base class is a parameter: an object has its
private attributes and those of the subclass, and what its methods do to them is what is published of them. Its
`__setitem__` calls the `popitem` of the subclass until the new value fits, for as long as its fuel lasts.
-/

namespace Yuan.Multimodal

/-- The exceptions of the cache. -/
inductive LRUError (K : Type) where
  | keyError (key : K)
  | valueError (msg : String)
  | runtimeError (msg : String)
  | stopIteration
  deriving DecidableEq

/-- What a cache is made with. Sizes are not negative. -/
structure LRUConfig (V : Type) where
  maxsize : Rat
  getsizeof : V → Rat
  maxsize_nonneg : 0 ≤ maxsize
  getsizeof_nonneg : ∀ value, 0 ≤ getsizeof value

structure LRUCache (K V : Type) where
  config : LRUConfig V
  data : Dict K V := Dict.empty
  sizes : Dict K Rat := Dict.empty
  currsize : Rat := 0
  order : Dict K Unit := Dict.empty
  pinnedItems : Finset K := ∅
  hits : Nat := 0
  total : Nat := 0
  lastInfo : Nat × Nat := (0, 0)

/-- `OrderedDict.move_to_end`, or a new key at the end. -/
def touchOrder {K : Type} [DecidableEq K] (order : Dict K Unit) (key : K) : Dict K Unit :=
  if order.contains key then order.moveToEnd key else order.set key ()

section

variable {K V : Type} [DecidableEq K]

/-- What `__setitem__` of the base class writes. -/
def LRUCache.store (c : LRUCache K V) (key : K) (value : V) : LRUCache K V := { c with
  data := c.data.set key value
  sizes := c.sizes.set key (c.config.getsizeof value)
  currsize := c.currsize + (c.config.getsizeof value - (c.sizes.get? key).getD 0)
  order := touchOrder c.order key }

/-- What `__delitem__` of the base class takes out. -/
def LRUCache.drop (c : LRUCache K V) (key : K) : LRUCache K V := { c with
  data := c.data.erase key
  sizes := c.sizes.erase key
  currsize := c.currsize - (c.sizes.get? key).getD 0
  order := c.order.erase key }

end

/-- `popitem`: the key and the value that it took out, or an exception. -/
abbrev PopItem (K V : Type) : Type :=
  LRUCache K V → Except (LRUError K) (K × Option V) × LRUCache K V

/-- `cachetools.LRUCache`, with what is published of its methods. `makeRoom` is the loop of `__setitem__`. -/
structure CachetoolsLRU (K V : Type) [DecidableEq K] where
  getItem : LRUCache K V → K → Except (LRUError K) V × LRUCache K V
  delItem : LRUCache K V → K → Except (LRUError K) Unit × LRUCache K V
  makeRoom : PopItem K V → Nat → LRUCache K V → Rat → Option (Except (LRUError K) Unit × LRUCache K V)
  setItem : PopItem K V → Nat → LRUCache K V → K → V → Option (Except (LRUError K) Unit × LRUCache K V)
  getItem_of_some : ∀ c key value, c.data.get? key = some value →
    getItem c key = (.ok value, { c with order := touchOrder c.order key })
  getItem_of_none : ∀ c key, c.data.get? key = none → getItem c key = (.error (.keyError key), c)
  delItem_of_mem : ∀ c key, key ∈ c.data.keys → key ∈ c.order.keys → delItem c key = (.ok (), c.drop key)
  makeRoom_zero : ∀ pop c size, makeRoom pop 0 c size = none
  makeRoom_fits : ∀ pop fuel c size, c.currsize + size ≤ c.config.maxsize →
    makeRoom pop (fuel + 1) c size = some (.ok (), c)
  makeRoom_ok : ∀ pop fuel c size item c', c.config.maxsize < c.currsize + size → pop c = (.ok item, c') →
    makeRoom pop (fuel + 1) c size = makeRoom pop fuel c' size
  makeRoom_error : ∀ pop fuel c size error c', c.config.maxsize < c.currsize + size → pop c = (.error error, c') →
    makeRoom pop (fuel + 1) c size = some (.error error, c')
  setItem_large : ∀ pop fuel c key value, c.config.maxsize < c.config.getsizeof value →
    setItem pop fuel c key value = some (.error (.valueError "value too large"), c)
  setItem_smaller : ∀ pop fuel c key value size, c.config.getsizeof value ≤ c.config.maxsize →
    key ∈ c.data.keys → c.sizes.get? key = some size → c.config.getsizeof value ≤ size →
    setItem pop fuel c key value = some (.ok (), c.store key value)
  setItem_none : ∀ pop fuel c key value, c.config.getsizeof value ≤ c.config.maxsize →
    (∀ size, key ∈ c.data.keys → c.sizes.get? key = some size → size < c.config.getsizeof value) →
    makeRoom pop fuel c (c.config.getsizeof value) = none → setItem pop fuel c key value = none
  setItem_error : ∀ pop fuel c key value error c', c.config.getsizeof value ≤ c.config.maxsize →
    (∀ size, key ∈ c.data.keys → c.sizes.get? key = some size → size < c.config.getsizeof value) →
    makeRoom pop fuel c (c.config.getsizeof value) = some (.error error, c') →
    setItem pop fuel c key value = some (.error error, c')
  setItem_ok : ∀ pop fuel c key value c', c.config.getsizeof value ≤ c.config.maxsize →
    (∀ size, key ∈ c.data.keys → c.sizes.get? key = some size → size < c.config.getsizeof value) →
    makeRoom pop fuel c (c.config.getsizeof value) = some (.ok (), c') →
    setItem pop fuel c key value = some (.ok (), c'.store key value)

namespace LRUCache

variable {K V : Type} [DecidableEq K] (base : CachetoolsLRU K V) (c : LRUCache K V)

/-- `__getitem__`. -/
def getItem (key : K) (updateInfo : Bool) : Except (LRUError K) V × LRUCache K V :=
  match base.getItem c key with
  | (.error error, c) => (.error error, c)
  | (.ok value, c) =>
    (.ok value, if updateInfo then { c with hits := c.hits + 1, total := c.total + 1 } else c)

/-- `__delitem__`; nothing is done on removal. -/
def delItem (key : K) : Except (LRUError K) Unit × LRUCache K V :=
  match getItem base c key false with
  | (.error error, c) => (.error error, c)
  | (.ok _, c) =>
    match base.delItem c key with
    | (.error error, c) => (.error error, c)
    | (.ok _, c) => (.ok (), if key ∈ c.pinnedItems then { c with pinnedItems := c.pinnedItems.erase key } else c)

def touch (key : K) : LRUCache K V := { c with order := touchOrder c.order key }

def get (key : K) (default : Option V) : Except (LRUError K) (Option V) × LRUCache K V :=
  if c.data.contains key then
    match getItem base c key false with
    | (.error error, c) => (.error error, c)
    | (.ok value, c) => (.ok (some value), { c with hits := c.hits + 1, total := c.total + 1 })
  else (.ok default, { c with total := c.total + 1 })

def pop (key : K) (default : Option V) : Except (LRUError K) (Option V) × LRUCache K V :=
  if c.data.contains key then
    match getItem base c key false with
    | (.error error, c) => (.error error, c)
    | (.ok value, c) =>
      match delItem base c key with
      | (.error error, c) => (.error error, c)
      | (.ok _, c) => (.ok (some value), c)
  else (.ok default, c)

def pin [ToString K] (key : K) : Except (LRUError K) Unit × LRUCache K V :=
  if c.data.contains key then (.ok (), { c with pinnedItems := insert key c.pinnedItems })
  else (.error (.valueError s!"Cannot pin key: {key} not in cache."), c)

/-- The key that `popitem` takes out. -/
def lruKey (removePinned : Bool) : Except (LRUError K) K :=
  if removePinned then
    match c.order.keys.head? with
    | some key => .ok key
    | none => .error .stopIteration
  else
    match c.order.keys.find? (· ∉ c.pinnedItems) with
    | some key => .ok key
    | none => .error (.runtimeError "All items are pinned, cannot remove oldest from the cache.")

def popitem (removePinned : Bool) : Except (LRUError K) (K × Option V) × LRUCache K V :=
  match c.lruKey removePinned with
  | .error error => (.error error, c)
  | .ok key =>
    match pop base c key none with
    | (.error error, c) => (.error error, c)
    | (.ok value, c) => (.ok (key, value), c)

def removeOldest (removePinned : Bool) : Except (LRUError K) Unit × LRUCache K V :=
  if c.data.keys.length = 0 then (.ok (), c)
  else
    match popitem base c removePinned with
    | (.error error, c) => (.error error, c)
    | (.ok _, c) => (.ok (), c)

def put (fuel : Nat) (key : K) (value : V) : Option (Except (LRUError K) Unit × LRUCache K V) :=
  base.setItem (fun c => popitem base c false) fuel c key value

/-- The loop of `clear`. -/
def clearLoop : Nat → LRUCache K V → Option (Except (LRUError K) Unit × LRUCache K V)
  | 0, _ => none
  | fuel + 1, c =>
    if 0 < c.data.keys.length then
      match removeOldest base c true with
      | (.error error, c) => some (.error error, c)
      | (.ok _, c) => clearLoop fuel c
    else some (.ok (), { c with hits := 0, total := 0, lastInfo := (0, 0) })

def clear (fuel : Nat) : Option (Except (LRUError K) Unit × LRUCache K V) := clearLoop base fuel c

end LRUCache

end Yuan.Multimodal
