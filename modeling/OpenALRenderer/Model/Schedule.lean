import OpenALRenderer.Foundation.Linked
import OpenALRenderer.Model.Clock

/-! # The schedule of a reference clock: `CAMSchedule`

A `HANDLE` is a number. The memory of the packets is explicit: an operation that follows a null or
dangling pointer, or whose loop does not end, has no value. -/

namespace OpenALRenderer

open Foundation

/-- `MAX_TIME`. -/
def maxTime : Int64 := 0x7FFFFFFFFFFFFFFF

/-- Where a `CAdvisePacket` is: two are members of the schedule, the others come from `new`. -/
inductive PacketLink where
  | head
  | z
  | allocated (n : ℕ)
  deriving DecidableEq, Repr

/-- The members of `CAdvisePacket` besides `m_next`. -/
structure AdvisePacket where
  adviseCookie : ℕ := 0
  eventTime : Int64 := 0
  period : Int64 := 0
  notify : ℕ := 0
  periodic : Bool := false
  deriving DecidableEq

/-- `m_rtEventTime += m_rtPeriod`. -/
def AdvisePacket.postpone (x : AdvisePacket) : AdvisePacket :=
  { x with eventTime := x.eventTime + x.period }

/-- `CAdvisePacket::IsZ`. -/
def isZ (c : Cell PacketLink AdvisePacket) : Bool := c.next.isNone

structure AMSchedule where
  heap : Heap PacketLink AdvisePacket
  created : ℕ := 0
  nextCookie : ℕ := 0
  adviseCount : UInt32 := 0
  adviseCache : Option PacketLink := none
  cacheCount : UInt32 := 0
  ev : Bool := false

namespace AMSchedule

/-- `dwCacheMax`. -/
def cacheMax : UInt32 := 5

/-- What the constructor leaves: the head, and the sentry behind it. -/
def constructed : AMSchedule where
  heap
    | .head => some ⟨some .z, {}⟩
    | .z => some ⟨none, { eventTime := maxTime }⟩
    | .allocated _ => none

/-- As many rounds as a loop can make without coming to a packet again. -/
def rounds (s : AMSchedule) : ℕ := s.created + 1

/-- `GetAdviseCount`. -/
def getAdviseCount (s : AMSchedule) : UInt32 := s.adviseCount

/-! ## Adding -/

/-- The private overload of `AddAdvisePacket`, which `SetEvent`s when the packet comes first. -/
def addPacket (p : Platform) (x : PacketLink) (s : AMSchedule) : Option (ℕ × AMSchedule) := do
  let cookie := p.toSizeT (s.nextCookie + 1)
  let packet := (← s.heap x).content
  let heap ← s.heap.write x { packet with adviseCookie := cookie }
  let (prev, _) ← heap.seek (fun n => packet.eventTime ≤ n.content.eventTime) s.rounds .head
  let heap ← heap.insertAfter prev x
  some (cookie, { s with
    heap := heap
    nextCookie := cookie
    adviseCount := s.adviseCount + 1
    ev := s.ev || prev == .head })

/-- A packet from the cache, or a new one. What `new` finds in memory is never read, and that it
finds none (the answer is the cookie 0, and nothing is changed) is left out. -/
def allocate (s : AMSchedule) : Option (PacketLink × AMSchedule) :=
  match s.adviseCache with
  | some x => (s.heap x).map fun c =>
      (x, { s with adviseCache := c.next, cacheCount := s.cacheCount - 1 })
  | none => some (.allocated s.created, { s with
      heap := Function.update s.heap (.allocated s.created) (some ⟨none, {}⟩)
      created := s.created + 1 })

/-- `AddAdvisePacket`. -/
def addAdvisePacket (p : Platform) (time1 time2 : Int64) (h : ℕ) (periodic : Bool)
    (s : AMSchedule) : Option (ℕ × AMSchedule) := do
  let (x, s) ← s.allocate
  let packet := (← s.heap x).content
  let heap ← s.heap.write x { packet with
    eventTime := time1, period := time2, notify := h, periodic := periodic }
  addPacket p x { s with heap := heap }

/-! ## Removing -/

/-- `Delete`, which keeps a few packets for later. -/
def delete (x : PacketLink) (s : AMSchedule) : Option AMSchedule :=
  if cacheMax ≤ s.cacheCount then (s.heap.free x).map fun heap => { s with heap := heap }
  else (s.heap.relink x s.adviseCache).map fun heap => { s with
    heap := heap, adviseCache := some x, cacheCount := s.cacheCount + 1 }

/-- `Unadvise`. -/
def unadvise (dwAdviseCookie : ℕ) (s : AMSchedule) : Option (HRESULT × AMSchedule) := do
  let (prev, n) ← s.heap.seek (fun n => isZ n || n.content.adviseCookie == dwAdviseCookie)
    s.rounds .head
  if isZ (← s.heap n) then some (.S_FALSE, s)
  else
    let (x, heap) ← s.heap.removeNext prev
    let s ← { s with heap := heap }.delete x
    some (.S_OK, { s with adviseCount := s.adviseCount - 1 })

/-! ## Notifying -/

/-- `ShuntHead`: the head of the list takes its place. -/
def shuntHead (s : AMSchedule) : Option AMSchedule := do
  let x ← (← s.heap .head).next
  let packet ← s.heap x
  let (prev, n) ← s.heap.seek (fun n => packet.content.eventTime < n.content.eventTime)
    s.rounds .head
  if prev = x then some s
  else
    let heap ← s.heap.relink .head packet.next
    let heap ← heap.relink prev (some x)
    let heap ← heap.relink x (some n)
    some { s with heap := heap }

/-- A round of the loop of `Advise`: the packet that is due, as it is when its handle is signalled,
or the time of the next one. -/
def adviseHead (rtTime : Int64) (s : AMSchedule) : Option (Int64 ⊕ AdvisePacket × AMSchedule) := do
  let pAdvise ← (← s.heap .head).next
  let advise ← s.heap pAdvise
  let packet := advise.content
  if packet.eventTime ≤ rtTime ∧ !isZ advise then
    if packet.periodic then
      let heap ← s.heap.write pAdvise packet.postpone
      let s ← { s with heap := heap }.shuntHead
      some (.inr (packet, s))
    else
      let (x, heap) ← s.heap.removeNext .head
      let s ← { s with heap := heap, adviseCount := s.adviseCount - 1 }.delete x
      some (.inr (packet, s))
  else some (.inl packet.eventTime)

/-- `Advise`, if its loop ends within so many rounds: the time of the next event, and the packets
whose handles have been signalled. -/
def advise (rtTime : Int64) : ℕ → AMSchedule → Option (Int64 × List AdvisePacket × AMSchedule)
  | 0, _ => none
  | n + 1, s => do
      match ← s.adviseHead rtTime with
      | .inl rtNextTime => some (rtNextTime, [], s)
      | .inr (packet, s) => (advise rtTime n s).map fun r => (r.1, packet :: r.2.1, r.2.2)

/-! ## The end -/

/-- `while (p) { p_next = p->m_next; delete p; p = p_next; }`. -/
def deleteCache : ℕ → Option PacketLink → Heap PacketLink AdvisePacket →
    Option (Heap PacketLink AdvisePacket)
  | _, none, heap => some heap
  | 0, some _, _ => none
  | n + 1, some p, heap => do deleteCache n (← heap p).next (← heap.free p)

/-- `while (!head.m_next->IsZ()) head.DeleteNext();`. -/
def deleteList : ℕ → Heap PacketLink AdvisePacket → Option (Heap PacketLink AdvisePacket)
  | 0, _ => none
  | n + 1, heap => do
      if isZ (← heap (← (← heap .head).next)) then some heap
      else
        let (x, heap) ← heap.removeNext .head
        deleteList n (← heap.free x)

/-- The destructor: what is left in memory. -/
def destroy (s : AMSchedule) : Option (Heap PacketLink AdvisePacket) := do
  let heap ← deleteCache s.rounds s.adviseCache s.heap
  if 0 < s.adviseCount then deleteList s.rounds heap else some heap

end AMSchedule

end OpenALRenderer
