import OpenALRenderer.Verification.Pin.TypeOwnership

/-! # All media types there are

Every block of task memory belongs to one type, so that the types are values: what one call does to
one of them the others do not notice. -/

namespace OpenALRenderer

open Foundation

namespace TypeStore

variable {s t : TypeStore} {g lost : ℕ → ℕ}

/-! ## The calls of a careful client -/

/-- The source is a type that there is, or has a format block as long as it says. -/
def Readable (s : TypeStore) : TypeSource → Bool
  | .place i => (s.types.get i).isSome
  | .foreign mt block => block.length = mt.cbFormat

/-- The type is there; no format of length 0 is asked for, and no more is written than there is. -/
def Proper (s : TypeStore) : Label → Bool
  | .construct => true
  | .constructType _ => true
  | .constructCopy rt _ => s.Readable rt
  | .assign this rt _ => (s.types.get this).isSome && s.Readable rt
  | .edit this _ => (s.types.get this).isSome
  | .setFormat this pformat _ => (s.types.get this).isSome && !pformat.isEmpty
  | .allocFormatBuffer this length _ => (s.types.get this).isSome && length != 0
  | .reallocFormatBuffer this length _ => (s.types.get this).isSome && length != 0
  | .resetFormatBuffer this => (s.types.get this).isSome
  | .writeFormat this bytes =>
      (s.types.get this).any fun mt => !bytes.isEmpty && bytes.length ≤ mt.cbFormat
  | .createMediaType pSrc _ _ => s.Readable pSrc
  | .destroy this => (s.types.get this).isSome

/-- The references that a call leaves in a type without counting them. -/
def lostBy (s : TypeStore) (u : ℕ) : Label → ℕ
  | .constructCopy rt a => ((s.lookUp rt).map fun r => AMMediaType.miscounted a r.1 u).getD 0
  | .assign this rt a =>
      if rt = .place this then 0
      else ((s.lookUp rt).map fun r => AMMediaType.miscounted a r.1 u).getD 0
  | _ => 0

/-! ## The meaning of a call -/

def values (s : TypeStore) : Slots TypeValue := s.types.map fun mt => mt.contents s.mem

def sourceValue (v : Slots TypeValue) : TypeSource → Option TypeValue
  | .place i => v.get i
  | .foreign mt block => some (mt.value (some block))

/-- One value is changed. -/
def alter (v : Slots TypeValue) (i : ℕ) (f : TypeValue → TypeValue) : Slots TypeValue :=
  v.set i ((v.get i).map f)

/-- What a call does to values. -/
def meaning (v : Slots TypeValue) : Label → Slots TypeValue
  | .construct => v.push (AMMediaType.initMediaType.value none)
  | .constructType type =>
      v.push { AMMediaType.initMediaType.value none with majortype := type }
  | .constructCopy rt a => (sourceValue v rt).elim v fun w => v.push (w.copied a)
  | .assign this rt a =>
      if rt = .place this then v
      else (sourceValue v rt).elim v fun w => v.set this (some (w.copied a))
  | .edit this e => alter v this (·.edited e)
  | .setFormat this pformat a => alter v this (·.setFormat a pformat)
  | .allocFormatBuffer this length a => alter v this (·.allocated a length [])
  | .reallocFormatBuffer this length a =>
      alter v this fun w => w.allocated a length (w.bytes.take length)
  | .resetFormatBuffer this => alter v this fun w => { w with format := none }
  | .writeFormat this bytes => alter v this (·.written bytes)
  | .createMediaType pSrc a a' =>
      (sourceValue v pSrc).elim v fun w =>
        if a.succeeds ∧ (w.format = none ∨ a'.succeeds) then v.push w else v
  | .destroy this => v.set this none

/-! ## The invariant -/

/-- The types and memory account for each other. A type that is left with a reference that has not
been counted refers to its object for nothing. -/
structure Sound (s : TypeStore) (g : ℕ → ℕ) : Prop where
  blocks : ∀ b, s.types.total (AMMediaType.owns b) = s.mem.allocated b
  filled : ∀ i mt, s.types.get i = some mt → mt.Filled s.mem
  fresh : s.mem.Fresh
  refs : ∀ u, s.mem.refs u + g u = s.types.total (AMMediaType.refers u)

variable {i j : ℕ} {mt mt' : AMMediaType}

/-- No two types own a block. -/
theorem Sound.alone (h : Sound s g) (hij : i ≠ j) (hi : s.types.get i = some mt)
    (hj : s.types.get j = some mt') {b : ℕ} (hb : mt'.owns b = 1) : mt.owns b = 0 := by
  have hle := Slots.add_le_total (c := AMMediaType.owns b) hij hi hj
  have hblocks := h.blocks b
  simp only [TaskMem.allocated] at hblocks
  split at hblocks <;> omega

end TypeStore

namespace Local

variable {mt : AMMediaType} {m m' : TaskMem} {x y : Option AMMediaType} {lost : ℕ → ℕ}

/-- A type whose block is not of the place does not notice a local action. -/
theorem keeps (h : Local x m y m' lost) (hmt : mt.Filled m)
    (hx : ∀ b, mt.owns b = 1 → held (AMMediaType.owns b) x = 0) :
    mt.Filled m' ∧ mt.contents m' = mt.contents m := by
  by_cases hcb : mt.cbFormat = 0
  · exact ⟨(absurd hcb ·), by simp [AMMediaType.contents, AMMediaType.value, hcb]⟩
  · obtain ⟨b, block, hpb, hb, hlength⟩ := hmt hcb
    have hb' := h.frame b block (hx b (if_pos ⟨hcb, hpb⟩)) hb
    exact ⟨fun _ => ⟨b, block, hpb, hb', hlength⟩,
      by simp [AMMediaType.contents, hpb, hb, hb']⟩

end Local

namespace TypeStore

variable {s t : TypeStore} {g lost : ℕ → ℕ} {i j : ℕ} {mt mt' : AMMediaType} {m' : TaskMem}

namespace Sound

/-- A local action in a place. -/
theorem set {y : Option AMMediaType} (h : Sound s g) (hi : s.types.get i = some mt)
    (hl : Local (some mt) s.mem y m' lost) :
    Sound { types := s.types.set i y, mem := m' } (fun u => g u + lost u) ∧
      values { types := s.types.set i y, mem := m' } =
        (values s).set i (y.map fun mt => mt.contents m') := by
  have hkeeps : ∀ j mt', j ≠ i → s.types.get j = some mt' →
      mt'.Filled m' ∧ mt'.contents m' = mt'.contents s.mem := fun j mt' hj hmt' =>
    hl.keeps (h.filled j mt' hmt') fun b hb => h.alone hj.symm hi hmt' hb
  refine ⟨?_, Slots.map_set_eq fun j mt' hj hmt' => (hkeeps j mt' hj hmt').2⟩
  exact
    { blocks := fun b => by
        have hset := Slots.total_set (c := AMMediaType.owns b) (x := y) hi
        have hlocal := hl.blocks b
        have hblocks := h.blocks b
        simp only [held, Option.map_some, Option.getD_some] at hlocal
        dsimp only
        omega
      filled := fun j mt' hj => by
        by_cases hji : j = i
        · subst hji
          exact hl.filled mt' ((Slots.get_set_self hi).symm.trans hj)
        · rw [Slots.get_set_of_ne hji] at hj
          exact (hkeeps j mt' hji hj).1
      fresh := hl.fresh
      refs := fun u => by
        have hset := Slots.total_set (c := AMMediaType.refers u) (x := y) hi
        have hlocal := hl.refs u
        have hrefs := h.refs u
        simp only [held, Option.map_some, Option.getD_some] at hlocal
        simp only [Int.natCast_add]
        omega }

/-- A local action that makes a type. -/
theorem push (h : Sound s g) (hl : Local none s.mem (some mt) m' lost) :
    Sound { types := s.types.push mt, mem := m' } (fun u => g u + lost u) ∧
      values { types := s.types.push mt, mem := m' } = (values s).push (mt.contents m') := by
  have hkeeps : ∀ j mt', s.types.get j = some mt' →
      mt'.Filled m' ∧ mt'.contents m' = mt'.contents s.mem := fun j mt' hmt' =>
    hl.keeps (h.filled j mt' hmt') fun b _ => rfl
  refine ⟨?_, Slots.map_push_eq fun j mt' hmt' => (hkeeps j mt' hmt').2⟩
  exact
    { blocks := fun b => by
        have hlocal := hl.blocks b
        have hblocks := h.blocks b
        simp only [held_none, held_some] at hlocal
        rw [Slots.total_push]
        dsimp only
        omega
      filled := fun j mt' hj => by
        by_cases hjs : j = s.types.size
        · subst hjs
          exact hl.filled mt' ((Slots.get_push_self mt s.types).symm.trans hj)
        · rw [Slots.get_push_of_ne hjs] at hj
          exact (hkeeps j mt' hj).1
      fresh := hl.fresh
      refs := fun u => by
        have hlocal := hl.refs u
        have hrefs := h.refs u
        simp only [held_none, held_some] at hlocal
        rw [Slots.total_push]
        simp only [Int.natCast_add]
        omega }

/-- What a source is worth, and that it can be read as long as nobody touches its block. -/
theorem exists_source {rt : TypeSource} (h : Sound s g) (hr : s.Readable rt = true) :
    ∃ r bytes, s.lookUp rt = some r ∧ sourceValue (values s) rt = some (r.1.value (some bytes)) ∧
      ∀ m', (∀ i, rt = .place i → ∀ b block, r.1.owns b = 1 → s.mem.blocks b = some block →
        m'.blocks b = some block) → r.1.Gives r.2 m' bytes := by
  cases rt with
  | foreign mt block =>
      exact ⟨_, block, rfl, rfl, fun m' _ _ => ⟨of_decide_eq_true hr, fun _ _ => rfl⟩⟩
  | place i =>
      obtain ⟨mt, hmt⟩ := Option.isSome_iff_exists.mp hr
      have hfilled := h.filled i mt hmt
      refine ⟨(mt, fun m => m.read mt.pbFormat mt.cbFormat), (mt.contents s.mem).bytes,
        by simp [lookUp, hmt], ?_, fun m' hm' hcb => ?_⟩
      · have hvalue : mt.contents s.mem = mt.value (some (mt.contents s.mem).bytes) := by
          by_cases hcb : mt.cbFormat = 0
          · simp [AMMediaType.contents, AMMediaType.value, hcb]
          · obtain ⟨b, block, hpb, hb, -⟩ := hfilled.exists_format hcb
            simp [TypeValue.bytes, AMMediaType.contents, AMMediaType.value, hpb, hb, hcb]
        simpa [sourceValue, values, hmt] using hvalue
      · obtain ⟨b, block, hpb, hb, hlength, hformat⟩ := hfilled.exists_format hcb
        have hb' := hm' i rfl b block (if_pos ⟨hcb, hpb⟩) hb
        refine ⟨by simp [TypeValue.bytes, hformat, hlength], fun m'' hext => ?_⟩
        simp [TaskMem.read, hpb, hext b block hb', TypeValue.bytes, hformat, ← hlength]

/-! ## One call -/

/-- A type that comes into a new place. -/
theorem placed {r : AMMediaType × TaskMem} (h : Sound s g)
    (hl : Local none s.mem (some r.1) r.2 lost) :
    Sound (s.place r) (fun u => g u + lost u) ∧
      values (s.place r) = (values s).push (r.1.contents r.2) :=
  h.push hl

/-- A call to a type that there is. -/
theorem replaced {r : AMMediaType × TaskMem} {f : TypeValue → TypeValue} (h : Sound s g)
    (hi : s.types.get i = some mt) (hl : Local (some mt) s.mem (some r.1) r.2 noneLost)
    (hf : r.1.contents r.2 = f (mt.contents s.mem)) :
    Sound (s.replace i r) g ∧ values (s.replace i r) = alter (values s) i f := by
  obtain ⟨hsound, hvalues⟩ := h.set hi hl
  refine ⟨hsound, hvalues.trans ?_⟩
  simp [alter, values, hi, hf]

theorem exists_get {this : ℕ} (h : Sound s g) (hsome : (s.types.get this).isSome = true) :
    ∃ mt, s.types.get this = some mt ∧ mt.Filled s.mem := by
  obtain ⟨mt, hmt⟩ := Option.isSome_iff_exists.mp hsome
  exact ⟨mt, hmt, h.filled this mt hmt⟩

theorem next_assign {this : ℕ} {rt : TypeSource} {a : Allocation} (h : Sound s g)
    (ha : s.Proper (.assign this rt a) = true) :
    ∃ t, s.next (.assign this rt a) = some t ∧ 
      Sound t (fun u => g u + s.lostBy u (.assign this rt a)) ∧
      values t = meaning (values s) (.assign this rt a) := by
  rw [Proper, Bool.and_eq_true] at ha
  obtain ⟨mt, hmt, hfilled⟩ := h.exists_get ha.1
  by_cases hself : rt = .place this
  · refine ⟨s, by simp [TypeStore.next, hmt, hself], ?_, by simp [meaning, hself]⟩
    simp only [lostBy, if_pos hself]
    exact h
  · obtain ⟨r, bytes, hlook, hsource, hgives⟩ := h.exists_source ha.2
    -- what is freed is not what is read
    have hgives' : ∀ m', Local (some mt) s.mem none m' noneLost → r.1.Gives r.2 m' bytes :=
      fun m' hl => hgives m' fun i hrt b block howns hb => by
        subst hrt
        obtain ⟨mt', hmt', rfl⟩ := Option.map_eq_some_iff.mp hlook
        have hne : this ≠ i := fun heq => hself (heq ▸ rfl)
        exact hl.frame b block (h.alone hne hmt hmt' howns) hb
    obtain ⟨c, hset, hl, hcontents⟩ := AMMediaType.exists_set a h.fresh hfilled hgives'
    obtain ⟨hsound, hvalues⟩ := h.set hmt hl
    refine ⟨s.replace this c.2, by simp [TypeStore.next, hmt, hself, hlook, hset], ?_, ?_⟩
    · simp only [lostBy, if_neg hself, hlook]
      exact hsound
    · rw [meaning, if_neg hself, hsource]
      exact hvalues.trans (by rw [Option.map_some, hcontents, Option.elim])

theorem next_createMediaType {pSrc : TypeSource} {a a' : Allocation} (h : Sound s g)
    (ha : s.Readable pSrc = true) :
    ∃ t, s.next (.createMediaType pSrc a a') = some t ∧ Sound t g ∧
      values t = meaning (values s) (.createMediaType pSrc a a') := by
  obtain ⟨r, bytes, hlook, hsource, hgives⟩ := h.exists_source ha
  obtain ⟨c, hcopy, hl, hcontents, hfailed, hmem⟩ := AMMediaType.exists_copyMediaType a' h.fresh
    (hgives s.mem fun _ _ _ _ _ hb => hb)
  cases hsucceeds : a.succeeds with
  | false =>
      exact ⟨s, by simp [TypeStore.next, hlook, hsucceeds], h, by simp [meaning, hsource, hsucceeds]⟩
  | true =>
      by_cases hstarved : AMMediaType.Starved a' r.1
      · have hf := hfailed.mpr hstarved
        refine ⟨s, by simp [TypeStore.next, hlook, hsucceeds, hcopy, hf, hmem hf], h, ?_⟩
        simp [meaning, hsource, AMMediaType.value, hstarved.1, hstarved.2]
      · have hf : c.1.failed = false := Bool.eq_false_iff.mpr fun hf => hstarved (hfailed.mp hf)
        have hnone : AMMediaType.miscounted a' r.1 = noneLost := funext fun u => if_neg hstarved
        obtain ⟨hsound, hvalues⟩ := h.placed hl
        rw [hnone] at hsound
        have hgets : (r.1.value (some bytes)).format = none ∨ a'.succeeds = true := by
          simpa [AMMediaType.Starved, AMMediaType.value, imp_iff_not_or] using hstarved
        have hwhole := TypeValue.copied_eq_self hgets
        refine ⟨s.place c.2, by simp [TypeStore.next, hlook, hsucceeds, hcopy, hf], hsound, ?_⟩
        rw [meaning, hsource, Option.elim, if_pos ⟨hsucceeds, hgets⟩, hvalues, hcontents, hwhole]

/-- What a careful client calls returns, and does to the types what it does to their values. -/
theorem next {a : Label} (h : Sound s g) (ha : s.Proper a = true) :
    ∃ t, s.next a = some t ∧ Sound t (fun u => g u + s.lostBy u a) ∧
      values t = meaning (values s) a := by
  cases a with
  | construct =>
      exact ⟨_, rfl, h.placed (r := (.initMediaType, s.mem)) (.make h.fresh rfl rfl)⟩
  | constructType type =>
      exact ⟨_, rfl, h.placed (r := ({ AMMediaType.initMediaType with majortype := type }, s.mem))
        (.make h.fresh rfl rfl)⟩
  | constructCopy rt a =>
      obtain ⟨r, bytes, hlook, hsource, hgives⟩ := h.exists_source ha
      obtain ⟨c, hcopy, hl, hcontents, -⟩ := AMMediaType.exists_copyMediaType a h.fresh
        (hgives s.mem fun _ _ _ _ _ hb => hb)
      obtain ⟨hsound, hvalues⟩ := h.placed hl
      refine ⟨s.place c.2, by simp [TypeStore.next, hlook, hcopy], ?_, ?_⟩
      · simp only [lostBy, hlook]
        exact hsound
      · rw [meaning, hsource]
        exact hvalues.trans (by rw [hcontents, Option.elim])
  | assign this rt a => exact h.next_assign ha
  | edit this e =>
      obtain ⟨mt, hmt, hfilled⟩ := h.exists_get ha
      obtain ⟨hl, hcontents⟩ := AMMediaType.local_edit e h.fresh hfilled
      exact ⟨s.replace this (e.apply mt, s.mem), by simp [TypeStore.next, hmt],
        h.replaced hmt hl hcontents⟩
  | setFormat this pformat a =>
      rw [Proper, Bool.and_eq_true] at ha
      obtain ⟨mt, hmt, hfilled⟩ := h.exists_get ha.1
      have hne : pformat ≠ [] := by simpa using ha.2
      obtain ⟨r, hset, hl, hcontents⟩ := AMMediaType.exists_setFormat a h.fresh hfilled hne
      exact ⟨s.replace this r.2, by simp [TypeStore.next, hmt, hset], h.replaced hmt hl hcontents⟩
  | allocFormatBuffer this length a =>
      rw [Proper, Bool.and_eq_true] at ha
      obtain ⟨mt, hmt, hfilled⟩ := h.exists_get ha.1
      have hne : length ≠ 0 := by simpa using ha.2
      obtain ⟨r, halloc, hl, hcontents, -⟩ :=
        AMMediaType.exists_allocFormatBuffer a h.fresh hfilled hne
      exact ⟨s.replace this r.2, by simp [TypeStore.next, hmt, halloc],
        h.replaced hmt hl hcontents⟩
  | reallocFormatBuffer this length a =>
      rw [Proper, Bool.and_eq_true] at ha
      obtain ⟨mt, hmt, hfilled⟩ := h.exists_get ha.1
      have hne : length ≠ 0 := by simpa using ha.2
      obtain ⟨r, hrealloc, hl, hcontents⟩ :=
        AMMediaType.exists_reallocFormatBuffer a h.fresh hfilled hne
      refine ⟨s.replace this r.2, by simp [TypeStore.next, hmt, hrealloc], ?_⟩
      exact h.replaced (f := fun w => w.allocated a length (w.bytes.take length)) hmt hl hcontents
  | resetFormatBuffer this =>
      obtain ⟨mt, hmt, hfilled⟩ := h.exists_get ha
      obtain ⟨r, hreset, hl, hcontents⟩ := AMMediaType.exists_resetFormatBuffer h.fresh hfilled
      refine ⟨s.replace this r, by simp [TypeStore.next, hmt, hreset], ?_⟩
      exact h.replaced (f := fun w => { w with format := none }) hmt hl hcontents
  | writeFormat this bytes =>
      obtain ⟨mt, hmt, hroom⟩ := (Option.any_eq_true _ _).mp ha
      rw [Bool.and_eq_true] at hroom
      have hne : bytes ≠ [] := by simpa using hroom.1
      obtain ⟨m, hwrite, hl, hcontents⟩ := AMMediaType.exists_write h.fresh
        (h.filled this mt hmt) hne (of_decide_eq_true hroom.2)
      exact ⟨s.replace this (mt, m), by simp [TypeStore.next, hmt, hwrite],
        h.replaced hmt hl hcontents⟩
  | createMediaType pSrc a a' => exact h.next_createMediaType ha
  | destroy this =>
      obtain ⟨mt, hmt, hfilled⟩ := h.exists_get ha
      obtain ⟨r, hfree, hl⟩ := AMMediaType.exists_freeMediaType h.fresh hfilled
      exact ⟨_, by simp [TypeStore.next, hmt, hfree], h.set hmt hl⟩

end Sound

/-! ## Whole runs -/

/-- There are no types in the beginning, and nothing is lost. -/
def Blank (x : TypeStore × (ℕ → ℕ)) : Prop := x = ({}, noneLost)

def system : System TypeStore Label := System.ofNext (· = {}) next

def noteLost (g : ℕ → ℕ) (s : TypeStore) (a : Label) (_ : TypeStore) : ℕ → ℕ :=
  fun u => g u + s.lostBy u a

/-- The system next to the references that have not been counted. -/
def accounting : System (TypeStore × (ℕ → ℕ)) Label :=
  System.ofNext Blank (System.record next noteLost)

theorem sound_empty : Sound {} noneLost where
  blocks _ := rfl
  filled _ _ h := by cases h
  fresh _ _ := rfl
  refs _ := rfl

theorem sound_of_reachable {x : TypeStore × (ℕ → ℕ)}
    (h : accounting.ReachableWhere (fun x a => x.1.Proper a = true) x) : Sound x.1 x.2 := by
  refine h.invariant (I := fun x => Sound x.1 x.2) (fun x hx => ?_) fun x a y hI hg hs => ?_
  · obtain rfl := hx
    exact sound_empty
  · obtain ⟨t, ht, rfl⟩ := Option.map_eq_some_iff.mp hs
    obtain ⟨t', ht', hsound, -⟩ := hI.next hg
    obtain rfl := Option.some.inj (ht.symm.trans ht')
    exact hsound

/-- A type of another filter that refers to an object. -/
def offered : TypeSource :=
  .foreign { majortype := mediaTypeAudio, pUnk := some 7, cbFormat := 4, pbFormat := some 99 }
    [1, 2, 3, 4]

/-- The values along a run. -/
theorem Sound.run {steps : List (TypeStore × Label)} (h : system.Run s steps t) (hs : Sound s g)
    (hproper : ∀ x ∈ steps, x.1.Proper x.2 = true) :
    (∃ g', Sound t g') ∧ values t = (steps.map Prod.snd).foldl meaning (values s) := by
  induction h generalizing g with
  | nil s => exact ⟨⟨g, hs⟩, rfl⟩
  | @cons s a u steps t hstep h ih =>
      rw [List.forall_mem_cons] at hproper
      obtain ⟨u', hu', hsound, hvalues⟩ := hs.next hproper.1
      obtain rfl := Option.some.inj (hu'.symm.trans hstep)
      obtain ⟨hsound', hvalues'⟩ := ih hsound hproper.2
      exact ⟨hsound', by rw [hvalues', hvalues, List.map_cons, List.foldl_cons]⟩

/-- Media types are values: after any calls each is worth what these calls make of values, in which
no type has anything to do with another; two types are equal, or match, if their values are. -/
theorem types_are_values (t : TypeStore) (steps : List (TypeStore × Label))
    (h : system.Run {} steps t) (hproper : ∀ x ∈ steps, x.1.Proper x.2 = true) :
    values t = (steps.map Prod.snd).foldl meaning .empty ∧
      ∀ i j mt rt, t.types.get i = some mt → t.types.get j = some rt →
        ∃ v w, (values t).get i = some v ∧ (values t).get j = some w ∧
          mt.equals rt t.mem = some (decide (v.toMediaType = w.toMediaType)) ∧
          mt.matchesPartial rt t.mem = some (v.toMediaType.matchesPartial w.toMediaType) := by
  obtain ⟨⟨g, hsound⟩, hvalues⟩ := sound_empty.run h hproper
  refine ⟨hvalues, fun i j mt rt hi hj => ?_⟩
  have hmt := hsound.filled i mt hi
  have hrt := hsound.filled j rt hj
  exact ⟨_, _, congrArg (Option.map _) hi, congrArg (Option.map _) hj,
    AMMediaType.equals_eq hmt hrt, AMMediaType.matchesPartial_eq hmt hrt⟩

/-- A copy is given a shorter format, and its original is written to. -/
theorem types_are_values_offered : ∃ t : TypeStore,
    ((values t).get 0).map TypeValue.bytes = some [5, 2, 3, 4] ∧
      ((values t).get 1).map TypeValue.bytes = some [9, 2] ∧
      ∃ mt rt, t.types.get 0 = some mt ∧ t.types.get 1 = some rt ∧
        mt.equals rt t.mem = some false := by
  have hrun : (System.exec next (fun s a => s.Proper a = true) {}
      [.constructCopy offered {}, .constructCopy (.place 0) {}, .reallocFormatBuffer 1 2 {},
        .writeFormat 0 [5], .setFormat 1 [9] { succeeds := false }]).isSome := by
    decide +kernel
  obtain ⟨t, ht⟩ := Option.isSome_iff_exists.mp hrun
  obtain ⟨steps, hsteps, hproper, hlabels⟩ := System.exists_run_of_exec _ _ _ ht
  obtain ⟨hvalues, hcompare⟩ := types_are_values t steps hsteps hproper
  rw [hlabels] at hvalues
  have hfirst : ((values t).get 0).map TypeValue.bytes = some [5, 2, 3, 4] := by
    rw [hvalues]
    decide +kernel
  have hsecond : ((values t).get 1).map TypeValue.bytes = some [9, 2] := by
    rw [hvalues]
    decide +kernel
  obtain ⟨v, hv, hbytes⟩ := Option.map_eq_some_iff.mp hfirst
  obtain ⟨w, hw, hbytes'⟩ := Option.map_eq_some_iff.mp hsecond
  obtain ⟨mt, hmt, -⟩ := Option.map_eq_some_iff.mp hv
  obtain ⟨rt, hrt, -⟩ := Option.map_eq_some_iff.mp hw
  obtain ⟨v', w', hv', hw', hequals, -⟩ := hcompare 0 1 mt rt hmt hrt
  obtain rfl := Option.some.inj (hv'.symm.trans hv)
  obtain rfl := Option.some.inj (hw'.symm.trans hw)
  have hne : v'.toMediaType ≠ w'.toMediaType := fun heq => by
    have hsame : v'.bytes = w'.bytes := congrArg (fun mt : MediaType => mt.format.getD []) heq
    rw [hbytes, hbytes'] at hsame
    cases hsame
  exact ⟨t, hfirst, hsecond, mt, rt, hmt, hrt, by rw [hequals, decide_eq_false hne]⟩

end TypeStore

end OpenALRenderer
