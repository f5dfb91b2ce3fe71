import OpenALRenderer.Model.Filter

/-! # `CBasePin::Connect`, with the types it tries -/

namespace OpenALRenderer

/-! ## Media types and results -/

namespace MediaType

def isPartiallySpecified (mt : MediaType) : Bool :=
  mt.majortype == guidNull || mt.formattype == guidNull

/-- `MatchesPartial`; two types without a format block have blocks of the same length. -/
def matchesPartial (mt pmt : MediaType) : Bool :=
  (pmt.majortype == guidNull || mt.majortype == pmt.majortype) &&
    (pmt.subtype == guidNull || mt.subtype == pmt.subtype) &&
    (pmt.formattype == guidNull ||
      mt.formattype == pmt.formattype && mt.format.getD [] == pmt.format.getD [])

end MediaType

namespace HRESULT

def VFW_E_NO_ACCEPTABLE_TYPES : HRESULT := .external true 0x80040207

/-- A result of `CheckMediaType` other than `S_OK`, as a connection attempt returns it. -/
def refusal (hr : HRESULT) : HRESULT :=
  if hr.failed = false ∨ hr = .E_FAIL ∨ hr = .E_INVALIDARG then .VFW_E_TYPE_NOT_ACCEPTED else hr

/-- A failure worth remembering while other types are tried. -/
def specific (hr : HRESULT) : Bool :=
  hr.failed && hr != .E_FAIL && hr != .E_INVALIDARG && hr != .VFW_E_TYPE_NOT_ACCEPTED

end HRESULT

/-! ## What a call meets -/

/-- What the attempt at one type meets. The other pin may notify an allocator before it answers
`ReceiveConnection`. -/
structure Attempt where
  replies : Replies := {}
  check : Indeterminate
  set : Indeterminate
  notified : Option Bool := none
  receiveConnection : HRESULT := .S_OK

/-- An enumerator: whether it is made and reset, and its types with what each attempt meets. -/
structure Enumeration where
  made : HRESULT := .S_OK
  reset : HRESULT := .S_OK
  types : List (MediaType × Attempt) := []

/-- A call of `Connect`. The enumerator of the pin itself has no types, because `GetMediaType` is
not overridden. `replies` is for the last `BreakConnect`. -/
structure ConnectCall where
  pmt : Option MediaType := none
  attempt : Attempt
  theirs : Enumeration
  ours : HRESULT := .S_OK
  replies : Replies := {}

/-! ## `Connect` -/

namespace Filter

/-- `BreakConnect`, and the release of the other pin. -/
def abandon (r : Replies) (w : Filter) : Filter :=
  let w := (w.breakConnect r).2
  { w with pin := { w.pin with connected := false } }

/-- `AttemptConnection`. `CompleteConnect` is not overridden and succeeds. -/
def attemptConnection (caps : Capabilities) (a : Attempt) (pmt : MediaType) (w : Filter) :
    Option (HRESULT × Filter) :=
  if a.replies.checkConnect.failed then
    some (a.replies.checkConnect, (w.breakConnect a.replies).2)
  else
    let q := w.checkMediaType caps a.check pmt
    if q.1 ≠ .S_OK then some (q.1.refusal, q.2.abandon a.replies)
    else
      let w := { q.2 with pin := { q.2.pin with connected := true } }
      (w.setMediaType caps a.set a.replies.allocates pmt).map fun s =>
        if s.1.failed then (s.1, s.2.abandon a.replies)
        else
          let w := (a.notified.map s.2.notifyAllocator).getD s.2
          if a.receiveConnection.failed then (a.receiveConnection, w.abandon a.replies)
          else (.S_OK, w)

/-- The loop of `TryMediaTypes`, from a type on. -/
def tryMediaTypes (caps : Capabilities) (pmt : Option MediaType) :
    List (MediaType × Attempt) → HRESULT → Filter → Option (HRESULT × Filter)
  | [], hrFailure, w =>
      some (if hrFailure = .S_OK then .VFW_E_NO_ACCEPTABLE_TYPES else hrFailure, w)
  | (mediaType, a) :: rest, hrFailure, w =>
      if pmt.all mediaType.matchesPartial then
        (w.attemptConnection caps a mediaType).bind fun q =>
          if q.1 = .S_OK then some q
          else
            let hr := if q.1.specific ∧ hrFailure.failed = false then q.1 else hrFailure
            tryMediaTypes caps pmt rest hr q.2
      else tryMediaTypes caps pmt rest hrFailure w

/-- The loop of `AgreeMediaType` over the enumerators, from one of them on. -/
def tryEnumerators (caps : Capabilities) (pmt : Option MediaType) :
    List Enumeration → HRESULT → Filter → Option (HRESULT × Filter)
  | [], hrFailure, w => some (hrFailure, w)
  | x :: rest, hrFailure, w =>
      if x.made.failed then tryEnumerators caps pmt rest hrFailure w
      else
        let tried := if x.reset.failed then some (x.reset, w)
          else w.tryMediaTypes caps pmt x.types .S_OK
        tried.bind fun q =>
          if q.1.failed then
            tryEnumerators caps pmt rest (if q.1.specific then q.1 else hrFailure) q.2
          else some (.S_OK, q.2)

def agreeMediaType (caps : Capabilities) (c : ConnectCall) (w : Filter) :
    Option (HRESULT × Filter) :=
  let enumerators := [c.theirs, { made := c.ours }]
  match c.pmt with
  | none => w.tryEnumerators caps none enumerators .VFW_E_NO_ACCEPTABLE_TYPES
  | some pmt =>
      if pmt.isPartiallySpecified then
        w.tryEnumerators caps pmt enumerators .VFW_E_NO_ACCEPTABLE_TYPES
      else w.attemptConnection caps c.attempt pmt

/-- `CBasePin::Connect`. -/
def connect (caps : Capabilities) (c : ConnectCall) (w : Filter) : Option (HRESULT × Filter) :=
  if w.pin.connected then some (.VFW_E_ALREADY_CONNECTED, w)
  else if w.state ≠ .stopped then some (.VFW_E_NOT_STOPPED, w)
  else (w.agreeMediaType caps c).map fun q =>
    if q.1.failed then (q.1, (q.2.breakConnect c.replies).2) else (.S_OK, q.2)

end Filter

end OpenALRenderer
