import OpenALRenderer.Foundation.Ledger
import OpenALRenderer.Foundation.System
import OpenALRenderer.Model.Platform

/-! # `CEnumPins` -/

namespace OpenALRenderer

open Foundation

def HRESULT.VFW_E_ENUM_OUT_OF_SYNC : HRESULT := .external true 0x80040203

/-- The pins of a filter, and the version that `IncrementPinVersion` counts up with each change of
them, fewer than 2^32 times. -/
structure PinList where
  version : ℕ := 1
  pins : List ℕ
  deriving DecidableEq

def PinList.getPinCount (l : PinList) : ℕ := l.pins.length

def PinList.getPin (n : ℕ) (l : PinList) : Option ℕ := l.pins[n]?

structure EnumPins where
  position : ℕ := 0
  pinCount : ℕ
  version : ℕ
  pinCache : List ℕ := []
  deriving DecidableEq

namespace EnumPins

/-- The constructor without an enumerator to copy. -/
def constructed (l : PinList) : EnumPins := { pinCount := l.getPinCount, version := l.version }

def areWeOutOfSync (l : PinList) (e : EnumPins) : Bool := l.version != e.version

def refresh (l : PinList) (e : EnumPins) : EnumPins :=
  { e with version := l.version, pinCount := l.getPinCount, position := 0 }

def reset (l : PinList) (e : EnumPins) : EnumPins := { e.refresh l with pinCache := [] }

def clone (l : PinList) (e : EnumPins) : HRESULT × Option EnumPins :=
  if e.areWeOutOfSync l then (.VFW_E_ENUM_OUT_OF_SYNC, none) else (.S_OK, some e)

/-- The loop of `Next`, which makes at most as many rounds as there are pins ahead: the pins in the
array, and whether a pin was missing. -/
def nextLoop (l : PinList) (cPins : ℕ) : ℕ → List ℕ → EnumPins → Bool × List ℕ × EnumPins
  | 0, fetched, e => (false, fetched, e)
  | rounds + 1, fetched, e =>
      if fetched.length < cPins ∧ e.position < e.pinCount then
        let pin := l.getPin e.position
        let e := { e with position := e.position + 1 }
        match pin with
        | none => (true, fetched, e)
        | some pin =>
            if pin ∈ e.pinCache then nextLoop l cPins rounds fetched e
            else nextLoop l cPins rounds (fetched ++ [pin])
              { e with pinCache := e.pinCache ++ [pin] }
      else (false, fetched, e)

/-- `Next`; `counted` tells whether there is a `pcFetched`. -/
def next (l : PinList) (cPins : ℕ) (counted : Bool) (e : EnumPins) :
    HRESULT × List ℕ × EnumPins :=
  if counted = false ∧ 1 < cPins then (.E_INVALIDARG, [], e)
  else
    let e := if e.areWeOutOfSync l then e.refresh l else e
    let r := nextLoop l cPins (e.pinCount - e.position) [] e
    (if r.1 then .VFW_E_ENUM_OUT_OF_SYNC else if cPins = r.2.1.length then .S_OK else .S_FALSE, r.2)

def skip (l : PinList) (cPins : ℕ) (e : EnumPins) : HRESULT × EnumPins :=
  if e.areWeOutOfSync l then (.VFW_E_ENUM_OUT_OF_SYNC, e)
  else if e.pinCount - e.position < cPins then (.S_FALSE, e)
  else (.S_OK, { e with position := e.position + cPins })

end EnumPins

/-- A filter whose pins change, and the enumerators it has made. -/
structure PinEnumeration where
  filter : PinList
  enumerators : Slots EnumPins := .empty

namespace PinEnumeration

inductive Label where
  | changePins (pins : List ℕ)
  | enumPins
  | next (i cPins : ℕ) (counted : Bool)
  | skip (i cPins : ℕ)
  | reset (i : ℕ)
  | clone (i : ℕ)
  | release (i : ℕ)

/-- An enumerator is replaced. -/
def put (s : PinEnumeration) (i : ℕ) (e : EnumPins) : PinEnumeration :=
  { s with enumerators := s.enumerators.set i (some e) }

/-- `changePins` is a filter that changes its pins and calls `IncrementPinVersion`; `release` is the
last one. -/
def step (s : PinEnumeration) : Label → Option PinEnumeration
  | .changePins pins => some { s with filter := ⟨s.filter.version + 1, pins⟩ }
  | .enumPins => some { s with enumerators := s.enumerators.push (.constructed s.filter) }
  | .next i cPins counted =>
      (s.enumerators.get i).map fun e => s.put i (e.next s.filter cPins counted).2.2
  | .skip i cPins => (s.enumerators.get i).map fun e => s.put i (e.skip s.filter cPins).2
  | .reset i => (s.enumerators.get i).map fun e => s.put i (e.reset s.filter)
  | .clone i => (s.enumerators.get i).map fun e =>
      (e.clone s.filter).2.elim s fun e' => { s with enumerators := s.enumerators.push e' }
  | .release i =>
      (s.enumerators.get i).map fun _ => { s with enumerators := s.enumerators.set i none }

end PinEnumeration

end OpenALRenderer
