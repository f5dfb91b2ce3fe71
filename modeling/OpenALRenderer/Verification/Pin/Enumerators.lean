import OpenALRenderer.Model.Enumerators

/-! # What `CEnumPins` hands out -/

namespace OpenALRenderer

open Foundation

namespace EnumPins

variable {l : PinList} {e : EnumPins} {cPins : ℕ}

/-- The pins before a position have all been handed out. -/
def Covers (l : PinList) (e : EnumPins) : Prop :=
  ∀ n < e.position, ∀ pin, l.getPin n = some pin → pin ∈ e.pinCache

/-! ## One call of `Next` -/

/-- The loop goes on from some pins in the array to more of them. -/
structure Advances (l : PinList) (cPins : ℕ) (e : EnumPins) (fetched : List ℕ)
    (r : Bool × List ℕ × EnumPins) (more : List ℕ) : Prop where
  found : r.1 = false
  array : r.2.1 = fetched ++ more
  pinCache : r.2.2.pinCache = e.pinCache ++ more
  nodup : e.pinCache.Nodup → r.2.2.pinCache.Nodup
  here : ∀ pin ∈ more, pin ∈ l.pins
  pinCount : r.2.2.pinCount = e.pinCount
  version : r.2.2.version = e.version
  position : r.2.2.position ≤ e.pinCount
  covers : e.Covers l → r.2.2.Covers l
  ends : r.2.1.length < cPins → r.2.2.position = e.pinCount
  enough : fetched.length ≤ cPins → r.2.1.length ≤ cPins

/-- A pin that has been handed out is passed over. -/
theorem Covers.pass {pin : ℕ} (h : e.Covers l) (hpin : l.getPin e.position = some pin)
    {cache : List ℕ} (hcache : ∀ p ∈ e.pinCache, p ∈ cache) (hmem : pin ∈ cache) :
    Covers l { e with position := e.position + 1, pinCache := cache } := by
  intro n hn p hp
  rcases Nat.lt_succ_iff_lt_or_eq.mp hn with hlt | rfl
  · exact hcache p (h n hlt p hp)
  · exact Option.some.inj (hp.symm.trans hpin) ▸ hmem

theorem exists_advances (l : PinList) (cPins : ℕ) (hcount : e.pinCount = l.getPinCount)
    (hposition : e.position ≤ e.pinCount) (fetched : List ℕ) :
    ∃ more, Advances l cPins e fetched
      (nextLoop l cPins (e.pinCount - e.position) fetched e) more := by
  induction hrounds : e.pinCount - e.position generalizing e fetched with
  | zero =>
      have hend : e.position = e.pinCount := by omega
      exact ⟨[], rfl, (List.append_nil _).symm, (List.append_nil _).symm, id, nofun, rfl, rfl,
        hposition, id, fun _ => hend, id⟩
  | succ rounds ih =>
      have hlt : e.position < e.pinCount := by omega
      by_cases hroom : fetched.length < cPins
      · have hpins : e.position < l.pins.length := hlt.trans_eq hcount
        obtain ⟨pin, hpin⟩ : ∃ pin, l.getPin e.position = some pin :=
          ⟨_, List.getElem?_eq_getElem hpins⟩
        by_cases hmem : pin ∈ e.pinCache
        · obtain ⟨more, h⟩ := ih (e := { e with position := e.position + 1 }) hcount hlt fetched
            (by dsimp only; omega)
          have hloop : nextLoop l cPins (rounds + 1) fetched e =
              nextLoop l cPins rounds fetched { e with position := e.position + 1 } := by
            simp only [nextLoop, hroom, hlt, and_self, if_true, hpin, hmem]
          rw [hloop]
          exact ⟨more, { h with covers := fun hc => h.covers (hc.pass hpin (fun _ => id) hmem) }⟩
        · obtain ⟨more, h⟩ := ih
            (e := { e with position := e.position + 1, pinCache := e.pinCache ++ [pin] })
            hcount hlt (fetched ++ [pin]) (by dsimp only; omega)
          have hloop : nextLoop l cPins (rounds + 1) fetched e =
              nextLoop l cPins rounds (fetched ++ [pin])
                { e with position := e.position + 1, pinCache := e.pinCache ++ [pin] } := by
            simp only [nextLoop, hroom, hlt, and_self, if_true, hpin, hmem, if_false]
          rw [hloop]
          refine ⟨pin :: more, ?_⟩
          exact
            { found := h.found
              array := by rw [h.array, List.append_assoc, List.singleton_append]
              pinCache := by rw [h.pinCache, List.append_assoc, List.singleton_append]
              nodup := fun hnodup => h.nodup (List.nodup_append.mpr
                ⟨hnodup, List.nodup_singleton pin, fun p hp q hq heq =>
                  hmem (List.mem_singleton.mp hq ▸ heq ▸ hp)⟩)
              here := List.forall_mem_cons.mpr ⟨List.mem_of_getElem? hpin, h.here⟩
              pinCount := h.pinCount
              version := h.version
              position := h.position
              covers := fun hc => h.covers
                (hc.pass hpin (fun p hp => List.mem_append_left _ hp) (by simp))
              ends := h.ends
              enough := fun _ => h.enough (by simpa [Nat.succ_le_iff] using hroom) }
      · have hloop : nextLoop l cPins (rounds + 1) fetched e = (false, fetched, e) := by
          simp only [nextLoop, hroom, false_and, if_false]
        rw [hloop]
        exact ⟨[], rfl, (List.append_nil _).symm, (List.append_nil _).symm, id, nofun, rfl, rfl,
          hposition, id, fun hlt' => absurd hlt' hroom, id⟩

/-! ## What has been handed out -/

/-- The pins that an enumerator has handed out since it was last reset, and whether pins have been
skipped. -/
structure Handed where
  given : List ℕ := []
  skipped : Bool := false

/-- An enumerator remembers what it has handed out. As long as it is in step with the filter, it has
done with the pins before its position. -/
structure Remembers (l : PinList) (e : EnumPins) (g : Handed) : Prop where
  cache : e.pinCache = g.given
  nodup : g.given.Nodup
  position : e.position ≤ e.pinCount
  version : e.version ≤ l.version
  pinCount : e.version = l.version → e.pinCount = l.getPinCount
  covers : e.version = l.version → g.skipped = false → e.Covers l

namespace Remembers

variable {g : Handed}

theorem constructed (l : PinList) : Remembers l (.constructed l) {} where
  cache := rfl
  nodup := List.nodup_nil
  position := Nat.zero_le _
  version := le_rfl
  pinCount _ := rfl
  covers _ _ _ hn := absurd hn (Nat.not_lt_zero _)

theorem refresh (h : Remembers l e g) : Remembers l (e.refresh l) g :=
  { h with
    position := Nat.zero_le _
    version := le_rfl
    pinCount := fun _ => rfl
    covers := fun _ _ _ hn => absurd hn (Nat.not_lt_zero _) }

theorem reset (l : PinList) (e : EnumPins) : Remembers l (e.reset l) {} where
  cache := rfl
  nodup := List.nodup_nil
  position := Nat.zero_le _
  version := le_rfl
  pinCount _ := rfl
  covers _ _ _ hn := absurd hn (Nat.not_lt_zero _)

theorem changePins (h : Remembers l e g) (pins : List ℕ) :
    Remembers ⟨l.version + 1, pins⟩ e g := by
  have hne : e.version ≠ l.version + 1 := (Nat.lt_succ_of_le h.version).ne
  exact
    { h with
      version := Nat.le_succ_of_le h.version
      pinCount := fun heq => absurd heq hne
      covers := fun heq => absurd heq hne }

theorem skip (h : Remembers l e g) (n : ℕ) :
    Remembers l (e.skip l n).2
      { g with skipped := g.skipped || ((e.skip l n).1 == .S_OK && n != 0) } := by
  unfold EnumPins.skip
  split_ifs with hsync hleft
  · exact { h with covers := fun heq hs => h.covers heq (Bool.or_eq_false_iff.mp hs).1 }
  · exact { h with covers := fun heq hs => h.covers heq (Bool.or_eq_false_iff.mp hs).1 }
  · have hposition := h.position
    refine { h with position := by dsimp only; omega, covers := fun heq hs => ?_ }
    obtain ⟨hskipped, hn⟩ := Bool.or_eq_false_iff.mp hs
    obtain rfl : n = 0 := by simpa using hn
    exact h.covers heq hskipped

/-- What a call of `Next` gives to a client who has got some pins before. -/
structure Gives (l : PinList) (cPins : ℕ) (g : Handed) (hr : HRESULT) (fetched : List ℕ) : Prop where
  inSync : hr ≠ .VFW_E_ENUM_OUT_OF_SYNC
  new : ∀ pin ∈ fetched, pin ∈ l.pins ∧ pin ∉ g.given
  all : hr = .S_OK → fetched.length = cPins
  rest : hr = .S_FALSE → g.skipped = false → ∀ pin ∈ l.pins, pin ∈ g.given ++ fetched

/-- The loop, once the enumerator is in step with the filter. -/
theorem fetch (h : Remembers l e g) (hversion : e.version = l.version) (cPins : ℕ)
    {r : Bool × List ℕ × EnumPins}
    (hr : nextLoop l cPins (e.pinCount - e.position) [] e = r) :
    Gives l cPins g (if r.1 then .VFW_E_ENUM_OUT_OF_SYNC
        else if cPins = r.2.1.length then .S_OK else .S_FALSE) r.2.1 ∧
      Remembers l r.2.2 { g with given := g.given ++ r.2.1 } := by
  have hcount := h.pinCount hversion
  obtain ⟨more, ha⟩ := exists_advances l cPins hcount h.position []
  rw [hr] at ha
  have harray : r.2.1 = more := ha.array
  have hcache : r.2.2.pinCache = g.given ++ r.2.1 := by rw [ha.pinCache, h.cache, harray]
  have hnodup : (g.given ++ r.2.1).Nodup := hcache ▸ ha.nodup (h.cache.symm ▸ h.nodup)
  rw [ha.found, if_neg Bool.false_ne_true]
  constructor
  · refine ⟨by split_ifs <;> decide, fun pin hpin => ⟨ha.here pin (harray ▸ hpin), fun hg => ?_⟩,
      fun hok => ?_, fun hfalse hskipped pin hpin => ?_⟩
    · exact (List.nodup_append.mp hnodup).2.2 pin hg pin hpin rfl
    · by_contra hne
      rw [if_neg (Ne.symm hne)] at hok
      cases hok
    · -- fewer pins than there is room for: the position is at the end
      have hlt : r.2.1.length < cPins := by
        refine lt_of_le_of_ne (ha.enough (Nat.zero_le _)) fun heq => ?_
        rw [if_pos heq.symm] at hfalse
        cases hfalse
      obtain ⟨n, hn, hget⟩ := List.mem_iff_getElem.mp hpin
      have hbefore : n < r.2.2.position := by rw [ha.ends hlt, hcount]; exact hn
      rw [← hcache]
      exact ha.covers (h.covers hversion hskipped) n hbefore pin
        (hget ▸ List.getElem?_eq_getElem hn)
  · exact
      { cache := hcache
        nodup := hnodup
        position := ha.pinCount.symm ▸ ha.position
        version := ha.version.symm ▸ h.version
        pinCount := fun _ => ha.pinCount.trans hcount
        covers := fun _ hskipped => ha.covers (h.covers hversion hskipped) }

theorem next (h : Remembers l e g) (cPins : ℕ) (counted : Bool) :
    Gives l cPins g (e.next l cPins counted).1 (e.next l cPins counted).2.1 ∧
      Remembers l (e.next l cPins counted).2.2
        { g with given := g.given ++ (e.next l cPins counted).2.1 } := by
  by_cases hinvalid : counted = false ∧ 1 < cPins
  · rw [EnumPins.next, if_pos hinvalid]
    exact ⟨⟨nofun, nofun, nofun, nofun⟩, by simpa using h⟩
  · by_cases hsync : e.areWeOutOfSync l
    · simpa only [EnumPins.next, if_neg hinvalid, if_pos hsync] using h.refresh.fetch rfl cPins rfl
    · have hversion : l.version = e.version := by simpa [areWeOutOfSync] using hsync
      simpa only [EnumPins.next, if_neg hinvalid, if_neg hsync] using h.fetch hversion.symm cPins rfl

end Remembers

end EnumPins

/-! ## Any calls -/

namespace PinEnumeration

open EnumPins (Handed Remembers)

/-- A clone has handed out what its original has. -/
def noteHanded (g : ℕ → Handed) (s : PinEnumeration) (a : Label) (_ : PinEnumeration) : ℕ → Handed :=
  match a with
  | .enumPins => Function.update g s.enumerators.size {}
  | .next i cPins counted => Function.update g i { g i with
      given := (g i).given ++
        ((s.enumerators.get i).map fun e => (e.next s.filter cPins counted).2.1).getD [] }
  | .skip i cPins => Function.update g i { g i with
      skipped := (g i).skipped ||
        ((s.enumerators.get i).any fun e => (e.skip s.filter cPins).1 == .S_OK && cPins != 0) }
  | .reset i => Function.update g i {}
  | .clone i => Function.update g s.enumerators.size (g i)
  | _ => g

def Fresh (x : PinEnumeration × (ℕ → Handed)) : Prop :=
  x.1.enumerators = .empty ∧ x.2 = fun _ => {}

def handing : System (PinEnumeration × (ℕ → Handed)) Label :=
  System.ofNext Fresh (System.record step noteHanded)

/-- Every enumerator remembers what it has handed out. -/
def Remembered (s : PinEnumeration) (g : ℕ → Handed) : Prop :=
  ∀ i e, s.enumerators.get i = some e → Remembers s.filter e (g i)

variable {s t : PinEnumeration} {g : ℕ → Handed} {i : ℕ} {e e' : EnumPins} {x : Handed}

theorem Remembered.put (h : Remembered s g) (hi : s.enumerators.get i = some e)
    (he : Remembers s.filter e' x) : Remembered (s.put i e') (Function.update g i x) := by
  intro j f hf
  by_cases hj : j = i
  · subst hj
    obtain rfl := Option.some.inj ((Slots.get_set_self hi).symm.trans hf)
    rw [Function.update_self]
    exact he
  · rw [Function.update_of_ne hj]
    exact h j f ((Slots.get_set_of_ne hj).symm.trans hf)

theorem Remembered.push (h : Remembered s g) (he : Remembers s.filter e x) :
    Remembered { s with enumerators := s.enumerators.push e }
      (Function.update g s.enumerators.size x) := by
  intro j f hf
  by_cases hj : j = s.enumerators.size
  · subst hj
    obtain rfl := Option.some.inj ((Slots.get_push_self e s.enumerators).symm.trans hf)
    rw [Function.update_self]
    exact he
  · rw [Function.update_of_ne hj]
    exact h j f ((Slots.get_push_of_ne hj).symm.trans hf)

theorem Remembered.step {a : Label} (h : Remembered s g) (hs : s.step a = some t) :
    Remembered t (noteHanded g s a t) := by
  cases a with
  | changePins pins =>
      obtain rfl := Option.some.inj hs
      exact fun i e he => (h i e he).changePins pins
  | enumPins =>
      obtain rfl := Option.some.inj hs
      exact h.push (.constructed s.filter)
  | next i cPins counted =>
      obtain ⟨e, he, rfl⟩ := Option.map_eq_some_iff.mp hs
      simp only [noteHanded, he, Option.map_some, Option.getD_some]
      exact h.put he ((h i e he).next cPins counted).2
  | skip i cPins =>
      obtain ⟨e, he, rfl⟩ := Option.map_eq_some_iff.mp hs
      simp only [noteHanded, he, Option.any_some]
      exact h.put he ((h i e he).skip cPins)
  | reset i =>
      obtain ⟨e, he, rfl⟩ := Option.map_eq_some_iff.mp hs
      exact h.put he (.reset s.filter e)
  | clone i =>
      obtain ⟨e, he, rfl⟩ := Option.map_eq_some_iff.mp hs
      by_cases hsync : e.areWeOutOfSync s.filter
      · simp only [EnumPins.clone, hsync, if_true, Option.elim, noteHanded]
        intro j f hf
        rw [Function.update_of_ne (Slots.lt_of_get hf).ne]
        exact h j f hf
      · simp only [EnumPins.clone, hsync, Option.elim, noteHanded]
        exact h.push (h i e he)
  | release i =>
      obtain ⟨e, he, rfl⟩ := Option.map_eq_some_iff.mp hs
      intro j f hf
      by_cases hj : j = i
      · subst hj
        cases (Slots.get_set_self he).symm.trans hf
      · exact h j f ((Slots.get_set_of_ne hj).symm.trans hf)

theorem remembered_of_reachable {x : PinEnumeration × (ℕ → Handed)} (h : handing.Reachable x) :
    Remembered x.1 x.2 := by
  refine h.invariant (I := fun x => Remembered x.1 x.2) (fun x hx i e he => ?_)
    fun x a y hI _ hs => ?_
  · rw [hx.1] at he
    cases he
  · obtain ⟨t, ht, rfl⟩ := Option.map_eq_some_iff.mp hs
    exact hI.step ht

/-- Whatever becomes of the pins of a filter in the meantime, no enumerator hands out a pin twice
before it is reset. `Next` never reports that the enumerator is out of step; it gives pins that there
are at the moment, as many as are asked for or, if nothing has been skipped, all that are left. -/
theorem pins_handed_out_once (x : PinEnumeration × (ℕ → Handed)) (h : handing.Reachable x)
    (i : ℕ) (e : EnumPins) (he : x.1.enumerators.get i = some e) :
    (x.2 i).given.Nodup ∧ ∀ cPins counted, Remembers.Gives x.1.filter cPins (x.2 i)
      (e.next x.1.filter cPins counted).1 (e.next x.1.filter cPins counted).2.1 :=
  have hremembers := remembered_of_reachable h i e he
  ⟨hremembers.nodup, fun cPins counted => (hremembers.next cPins counted).1⟩

/-- A pin is added in front while the pins are enumerated. -/
theorem pins_handed_out_once_added : ∃ x : PinEnumeration × (ℕ → Handed),
    x.1.filter.pins = [9, 4, 5] ∧ (x.2 0).given = [4] ∧ (x.2 1).given = [4, 9, 5] ∧
      (x.2 1).given.Nodup := by
  have hrun : (System.exec (System.record step noteHanded) (fun _ _ => True)
      ({ filter := { pins := [4, 5] } }, fun _ => {})
      [.enumPins, .next 0 1 false, .clone 0, .changePins [9, 4, 5], .next 1 3 true]).any fun x =>
      x.1.filter.pins = [9, 4, 5] ∧ (x.2 0).given = [4] ∧ (x.2 1).given = [4, 9, 5] ∧
        (x.1.enumerators.get 1).isSome := by
    decide +kernel
  obtain ⟨x, hx, hpins, hfirst, hsecond, hsome⟩ := System.exists_reachableWhere_of_exec _
    (show Fresh ({ filter := { pins := [4, 5] } }, fun _ => {}) from ⟨rfl, rfl⟩) hrun
  obtain ⟨e, he⟩ := Option.isSome_iff_exists.mp hsome
  exact ⟨x, hpins, hfirst, hsecond, (pins_handed_out_once x hx 1 e he).1⟩

end PinEnumeration

end OpenALRenderer
