import BufferSim.Buffer.Manager
import BufferSim.Cxx.CircularArray
import BufferSim.Cxx.IndexMap
import BufferSim.Paging.SecondChance

/-!
# The CLOCK manager

`ClockBuffer.cpp` keeps its pages in an array of frames with reference bits.
While frames are free it fills them in order; afterwards `findVictim` advances
the hand over the frames, clearing bits, until it finds a clear one.

The loop of `findVictim` has no bound in the source.  The model runs it with
fuel, and `findVictimLoop_spec` shows that one iteration more than there are
set bits is enough, so `C + 1` iterations always are.  The frames read
circularly from the hand form the queue of the second-chance policy, and the
manager refines that policy.
-/

namespace BufferSim

open Paging Cxx

/-- A frame of the buffer. -/
structure Page where
  id : Int
  pinned : Bool
  referenceBit : Bool
  deriving DecidableEq, Repr

namespace Page

/-- `Page()`: the content of a frame that was never filled. -/
def unfilled : Page where
  id := -1
  pinned := false
  referenceBit := false

/-- `Page(id)`: a page that was just loaded. -/
def load (id : Int) : Page where
  id := id
  pinned := false
  referenceBit := true

/-- The queue entry of a page: its id and its reference bit. -/
def entry (page : Page) : Int × Bool :=
  (page.id, page.referenceBit)

end Page

/-- The fields of `ClockBuffer`. -/
structure ClockBuffer where
  capacity : ℕ
  metrics : Metrics
  frames : List Page
  pageMap : Finmap (fun _ : Int => ℕ)
  hand : ℕ
  count : ℕ

namespace ClockBuffer

def new (capacity : ℕ) : ClockBuffer where
  capacity := capacity
  metrics := { strategyName := "CLOCK" }
  frames := List.replicate capacity Page.unfilled
  pageMap := ∅
  hand := 0
  count := 0

/-- Overwrite a frame; writing outside of the array is undefined. -/
def writeFrame (b : ClockBuffer) (frameIdx : ℕ) (page : Page) :
    Option ClockBuffer :=
  if frameIdx < b.frames.length then
    some { b with frames := b.frames.set frameIdx page }
  else none

/-- The loop of `findVictim`, for a bounded number of iterations. -/
def findVictimLoop : ℕ → ClockBuffer → Option (ℕ × ClockBuffer)
  | 0, _ => none
  | fuel + 1, b => do
      let page ← b.frames[b.hand]?
      if !page.referenceBit then
        return (b.hand, { b with hand := (b.hand + 1) % b.capacity })
      else
        let cleared ← b.writeFrame b.hand { page with referenceBit := false }
        findVictimLoop fuel { cleared with hand := (b.hand + 1) % b.capacity }

/-- `ClockBuffer::findVictim`. -/
def findVictim (b : ClockBuffer) : Option (ℕ × ClockBuffer) :=
  findVictimLoop (b.capacity + 1) b

/-- The frame for a page that missed: the next free one, or the victim's. -/
def chooseFrame (b : ClockBuffer) : Option (ℕ × ClockBuffer) :=
  if b.count < b.capacity then
    some (b.count, { b with count := b.count + 1 })
  else do
    let (frameIdx, swept) ← b.findVictim
    let old ← swept.frames[frameIdx]?
    return (frameIdx, { swept with
      pageMap := swept.pageMap.erase old.id
      metrics := swept.metrics.countEviction })

/-- `ClockBuffer::accessPage`. -/
def accessPage (b : ClockBuffer) (pageId : Int) : Option ClockBuffer :=
  match b.pageMap.lookup pageId with
  | some frameIdx => do
      let counted : ClockBuffer :=
        { b with metrics := b.metrics.countRequest.countHit }
      let page ← counted.frames[frameIdx]?
      counted.writeFrame frameIdx { page with referenceBit := true }
  | none => do
      let missed : ClockBuffer :=
        { b with metrics := b.metrics.countRequest.countMiss }
      let (frameIdx, room) ← missed.chooseFrame
      let loaded ← room.writeFrame frameIdx (Page.load pageId)
      return { loaded with pageMap := loaded.pageMap.insert pageId frameIdx }

def manager : BufferManager ClockBuffer where
  accessPage := accessPage
  getMetrics b := b.metrics

/-- The pages in `pageMap_`. -/
def resident (b : ClockBuffer) : Finset Int :=
  b.pageMap.keys

/-- Writing a bit of a frame changes no page id. -/
theorem map_id_set_bit {frames : List Page} {i : ℕ} {page : Page}
    (hpage : frames[i]? = some page) (bit : Bool) :
    (frames.set i { page with referenceBit := bit }).map Page.id =
      frames.map Page.id := by
  obtain ⟨hlt, hget⟩ := List.getElem?_eq_some_iff.mp hpage
  have hself : frames.set i page = frames := by
    rw [← hget]
    exact List.set_getElem_self hlt
  rw [List.map_set]
  show (frames.map Page.id).set i page.id = _
  rw [← List.map_set, hself]

/-! ## The loop of `findVictim` -/

/-- One iteration that clears a bit. -/
theorem findVictimLoop_succ_of_set {b : ClockBuffer} {page : Page} {fuel : ℕ}
    (hpage : b.frames[b.hand]? = some page) (hbit : page.referenceBit = true) :
    findVictimLoop (fuel + 1) b =
      findVictimLoop fuel { b with
        frames := b.frames.set b.hand { page with referenceBit := false }
        hand := (b.hand + 1) % b.capacity } := by
  have hlt : b.hand < b.frames.length :=
    (List.getElem?_eq_some_iff.mp hpage).1
  rw [findVictimLoop, hpage]
  simp [hbit, writeFrame, hlt]

/-- The last iteration, at a frame with a clear bit. -/
theorem findVictimLoop_succ_of_clear {b : ClockBuffer} {page : Page}
    {fuel : ℕ} (hpage : b.frames[b.hand]? = some page)
    (hbit : page.referenceBit = false) :
    findVictimLoop (fuel + 1) b =
      some (b.hand, { b with hand := (b.hand + 1) % b.capacity }) := by
  rw [findVictimLoop, hpage]
  simp [hbit]

/-- Clearing a set bit leaves one set bit less. -/
theorem countP_clear_bit {frames : List Page} {i : ℕ} {page : Page}
    (hpage : frames[i]? = some page) (hbit : page.referenceBit = true) :
    (frames.set i { page with referenceBit := false }).countP
        Page.referenceBit + 1 = frames.countP Page.referenceBit := by
  obtain ⟨hlt, hget⟩ := List.getElem?_eq_some_iff.mp hpage
  have hpos : 0 < frames.countP Page.referenceBit :=
    List.countP_pos_iff.mpr ⟨page, List.mem_of_getElem? hpage, hbit⟩
  rw [List.countP_set hlt, hget, hbit]
  simp only [if_true, Bool.false_eq_true, if_false]
  exact Nat.sub_add_cancel hpos

/-- The queue read from the hand starts with the frame under the hand. -/
theorem rotate_entries {frames : List Page} {hand : ℕ} {page : Page}
    (hpage : frames[hand]? = some page) :
    (frames.rotate hand).map Page.entry =
      (page.id, page.referenceBit) ::
        (behindHand frames hand).map Page.entry := by
  obtain ⟨hlt, hget⟩ := List.getElem?_eq_some_iff.mp hpage
  rw [rotate_eq_cons hlt, hget]
  rfl

/-- Clearing the bit under the hand and advancing the hand puts the frame back
to the end of the queue. -/
theorem rotate_entries_clear {frames : List Page} {hand : ℕ} {page : Page}
    (hpage : frames[hand]? = some page) :
    ((frames.set hand { page with referenceBit := false }).rotate
        ((hand + 1) % frames.length)).map Page.entry =
      (behindHand frames hand).map Page.entry ++ [(page.id, false)] := by
  obtain ⟨hlt, -⟩ := List.getElem?_eq_some_iff.mp hpage
  rw [rotate_set_succ hlt, List.map_append]
  rfl

/-- The loop ends once every set bit had its iteration, and it is a sweep of
the queue read from the hand.  The frames keep their page ids. -/
theorem findVictimLoop_spec (fuel : ℕ) (b : ClockBuffer)
    (hlen : b.frames.length = b.capacity) (hhand : b.hand < b.capacity)
    (hfuel : b.frames.countP Page.referenceBit < fuel) :
    ∃ victim frames v rest,
      findVictimLoop fuel b = some (victim, { b with
        frames := frames
        hand := (victim + 1) % b.capacity }) ∧
      frames.map Page.id = b.frames.map Page.id ∧
      victim < b.capacity ∧
      sweep ((b.frames.rotate b.hand).map Page.entry) = some (v, rest) ∧
      (frames.rotate victim).map Page.entry = (v, false) :: rest := by
  induction fuel generalizing b with
  | zero => exact absurd hfuel (Nat.not_lt_zero _)
  | succ fuel ih =>
      have hlt : b.hand < b.frames.length := hlen.symm ▸ hhand
      obtain ⟨page, hpage⟩ : ∃ page, b.frames[b.hand]? = some page :=
        ⟨_, List.getElem?_eq_getElem hlt⟩
      rw [rotate_entries hpage]
      cases hbit : page.referenceBit with
      | false =>
          refine ⟨b.hand, b.frames, page.id, _,
            findVictimLoop_succ_of_clear hpage hbit, rfl, hhand,
            sweep_cons_false _ _, ?_⟩
          rw [rotate_entries hpage, hbit]
      | true =>
          set next : ClockBuffer := { b with
            frames := b.frames.set b.hand { page with referenceBit := false }
            hand := (b.hand + 1) % b.capacity } with hnext
          have hnextLen : next.frames.length = next.capacity := by
            rw [hnext, List.length_set]
            exact hlen
          have hnextHand : next.hand < next.capacity :=
            Nat.mod_lt _ (Nat.lt_of_le_of_lt (Nat.zero_le _) hhand)
          have hcount : next.frames.countP Page.referenceBit + 1 =
              b.frames.countP Page.referenceBit :=
            countP_clear_bit hpage hbit
          have hnextRotate :
              (next.frames.rotate next.hand).map Page.entry =
                (behindHand b.frames b.hand).map Page.entry ++
                  [(page.id, false)] := by
            have hclear := rotate_entries_clear hpage
            rw [hlen] at hclear
            exact hclear
          obtain ⟨victim, frames, v, rest, hloop, hids, hvictim, hsweep,
            hframes⟩ := ih next hnextLen hnextHand (by omega)
          refine ⟨victim, frames, v, rest, ?_, ?_, hvictim, ?_, hframes⟩
          · rw [findVictimLoop_succ_of_set hpage hbit]
            exact hloop
          · rw [hids, hnext]
            exact map_id_set_bit hpage false
          · rw [sweep_cons_true, ← hnextRotate]
            exact hsweep

/-! ## The simulation relation -/

/-- The frames in the order in which the second-chance queue holds them: read
circularly from the hand when full, and in filling order otherwise. -/
def queue (b : ClockBuffer) : List (Int × Bool) :=
  if b.count < b.capacity then (b.frames.take b.count).map Page.entry
  else (b.frames.rotate b.hand).map Page.entry

/-- The frames hold the queue, and the map is the inverse of the assignment of
pages to the frames that are filled. -/
structure Represents (C : ℕ) (b : ClockBuffer) (s : ChanceQueue Int C) :
    Prop where
  capacity_eq : b.capacity = C
  frames_length : b.frames.length = C
  count_eq : b.count = s.entries.length
  hand_lt : b.hand < C
  hand_eq_zero : b.count < C → b.hand = 0
  queue_eq : b.queue = s.entries
  lookup_iff : ∀ p i, b.pageMap.lookup p = some i ↔
    i < b.count ∧ (b.frames.map Page.id)[i]? = some p

theorem represents_new {C : ℕ} (hC : 1 ≤ C) :
    Represents C (new C) (secondChance Int C).start where
  capacity_eq := rfl
  frames_length := List.length_replicate
  count_eq := rfl
  hand_lt := hC
  hand_eq_zero _ := rfl
  queue_eq := by
    rw [queue, if_pos (show (new C).count < (new C).capacity from hC)]
    rfl
  lookup_iff p i := by simp [new]

/-- In both phases the queue is a rotation of the filled frames. -/
theorem queue_eq_rotate {b : ClockBuffer}
    (hlen : b.frames.length = b.capacity)
    (hhand : b.count < b.capacity → b.hand = 0) :
    b.queue = ((b.frames.take b.count).map Page.entry).rotate b.hand := by
  rw [queue]
  by_cases hroom : b.count < b.capacity
  · rw [if_pos hroom, hhand hroom, List.rotate_zero]
  · rw [if_neg hroom, List.take_of_length_le (hlen ▸ Nat.not_lt.mp hroom),
      List.map_rotate]

namespace Represents

variable {C : ℕ} {b : ClockBuffer} {s : ChanceQueue Int C}

theorem count_le (h : Represents C b s) : b.count ≤ C :=
  h.count_eq ▸ s.length_le

/-- The page ids of the queue, as a rotation of the filled frames. -/
theorem entries_fst (h : Represents C b s) :
    s.entries.map Prod.fst =
      ((b.frames.take b.count).map Page.id).rotate b.hand := by
  have hqueue := queue_eq_rotate (b := b)
    (h.frames_length.trans h.capacity_eq.symm)
    (fun hroom => h.hand_eq_zero (h.capacity_eq ▸ hroom))
  rw [← h.queue_eq, hqueue, List.map_rotate, List.map_map]
  rfl

theorem nodup_ids (h : Represents C b s) :
    ((b.frames.take b.count).map Page.id).Nodup := by
  rw [← List.nodup_rotate (n := b.hand), ← h.entries_fst]
  exact s.nodup

theorem getElem?_take_ids {i : ℕ} {p : Int} :
    ((b.frames.take b.count).map Page.id)[i]? = some p ↔
      i < b.count ∧ (b.frames.map Page.id)[i]? = some p := by
  rw [List.map_take, List.getElem?_take]
  by_cases hi : i < b.count
  · simp [hi]
  · simp [hi]

theorem mem_iff (h : Represents C b s) (p : Int) :
    p ∈ b.pageMap ↔ p ∈ s.entries.map Prod.fst := by
  rw [h.entries_fst, List.mem_rotate, List.mem_iff_getElem?, Finmap.mem_iff]
  apply exists_congr
  intro i
  rw [h.lookup_iff, getElem?_take_ids]

theorem resident_eq (h : Represents C b s) :
    b.resident = (secondChance Int C).resident s := by
  ext p
  rw [resident, Finmap.mem_keys, h.mem_iff, secondChance_resident,
    List.mem_toFinset]

end Represents

/-! ## The three paths of a request -/

/-- Setting the bit of one frame sets the bit of its page in the queue. -/
theorem map_entry_set {l : List Page} (hl : (l.map Page.id).Nodup) {i : ℕ}
    {page : Page} (hi : l[i]? = some page) :
    (l.set i { page with referenceBit := true }).map Page.entry =
      ChanceQueue.setBit page.id (l.map Page.entry) := by
  obtain ⟨hlt, hget⟩ := List.getElem?_eq_some_iff.mp hi
  apply List.ext_getElem
  · simp [ChanceQueue.setBit]
  · intro j hj hj'
    have hjl : j < l.length := by simpa using hj
    simp only [ChanceQueue.setBit, List.getElem_map, List.getElem_set]
    by_cases hij : i = j
    · subst hij
      simp [hget, Page.entry]
    · have hne : l[j].id ≠ page.id := by
        intro hid
        apply hij
        have hids : (l.map Page.id)[i]? = (l.map Page.id)[j]? := by
          simp [hlt, hjl, hget, hid]
        exact (List.getElem?_inj (by simpa using hlt) hl).mp hids
      simp [hij, hne, Page.entry]

variable {C : ℕ} {b : ClockBuffer} {s : ChanceQueue Int C}

theorem step_hit (h : Represents C b s) {p : Int}
    (hp : p ∈ s.entries.map Prod.fst) :
    ∃ b', b.accessPage p = some b' ∧
      Represents C b' ((secondChance Int C).next s p) ∧
      b'.metrics = b.metrics.record .hit := by
  obtain ⟨i, hlookup⟩ := Finmap.mem_iff.mp ((h.mem_iff p).mpr hp)
  obtain ⟨hi, hid⟩ := (h.lookup_iff p i).mp hlookup
  rw [List.getElem?_map, Option.map_eq_some_iff] at hid
  obtain ⟨page, hpage, rfl⟩ := hid
  obtain ⟨hlt, hget⟩ := List.getElem?_eq_some_iff.mp hpage
  have hentries : ((secondChance Int C).next s page.id).entries =
      ChanceQueue.setBit page.id s.entries := by
    rw [secondChance_next_entries, ChanceQueue.serve, if_pos hp]
  refine ⟨{ b with
    metrics := b.metrics.countRequest.countHit
    frames := b.frames.set i { page with referenceBit := true } }, ?_, ?_, rfl⟩
  · rw [accessPage, hlookup]
    simp [hget, writeFrame, hlt]
  · refine ⟨h.capacity_eq, ?_, ?_, h.hand_lt, h.hand_eq_zero, ?_, ?_⟩
    · simpa using h.frames_length
    · rw [hentries, ChanceQueue.setBit, List.length_map]
      exact h.count_eq
    · rw [hentries, ← h.queue_eq, queue_eq_rotate, queue_eq_rotate]
      · simp only [List.take_set]
        rw [map_entry_set h.nodup_ids (by simpa [List.getElem?_take, hi]
          using hpage), ChanceQueue.setBit, ChanceQueue.setBit,
          List.map_rotate]
      · exact h.frames_length.trans h.capacity_eq.symm
      · exact fun hroom => h.hand_eq_zero (h.capacity_eq ▸ hroom)
      · rw [List.length_set]
        exact h.frames_length.trans h.capacity_eq.symm
      · exact fun hroom => h.hand_eq_zero (h.capacity_eq ▸ hroom)
    · intro q j
      rw [map_id_set_bit hpage true]
      exact h.lookup_iff q j

theorem step_load (h : Represents C b s) {p : Int}
    (hp : p ∉ s.entries.map Prod.fst) (hroom : s.entries.length < C) :
    ∃ b', b.accessPage p = some b' ∧
      Represents C b' ((secondChance Int C).next s p) ∧
      b'.metrics = b.metrics.record .load := by
  have hcount : b.count < C := h.count_eq ▸ hroom
  have hlt : b.count < b.frames.length := h.frames_length ▸ hcount
  have hmiss : p ∉ b.pageMap := fun hmem => hp ((h.mem_iff p).mp hmem)
  have hlookup := Finmap.lookup_eq_none.mpr hmiss
  have hentries : ((secondChance Int C).next s p).entries =
      s.entries ++ [(p, true)] := by
    rw [secondChance_next_entries, ChanceQueue.serve, if_neg hp,
      if_pos hroom]
  have hhand := h.hand_eq_zero hcount
  refine ⟨{ b with
    metrics := b.metrics.countRequest.countMiss
    frames := b.frames.set b.count (Page.load p)
    pageMap := b.pageMap.insert p b.count
    count := b.count + 1 }, ?_, ?_, rfl⟩
  · rw [accessPage, hlookup]
    simp [chooseFrame, h.capacity_eq, hcount, writeFrame, hlt]
  · refine ⟨h.capacity_eq, ?_, ?_, h.hand_lt, fun _ => hhand, ?_, ?_⟩
    · simpa using h.frames_length
    · rw [hentries, List.length_append, List.length_singleton, h.count_eq]
    · have hfilled : (b.frames.set b.count (Page.load p)).take (b.count + 1) =
          b.frames.take b.count ++ [Page.load p] := by
        rw [List.set_eq_take_cons_drop _ hlt, List.take_append,
          List.length_take, Nat.min_eq_left hlt.le,
          Nat.add_sub_cancel_left, List.take_take,
          Nat.min_eq_right (Nat.le_succ _)]
        rfl
      rw [hentries, ← h.queue_eq, queue_eq_rotate, queue_eq_rotate]
      · simp only [hhand, List.rotate_zero]
        rw [hfilled, List.map_append]
        rfl
      · exact h.frames_length.trans h.capacity_eq.symm
      · exact fun _ => hhand
      · rw [List.length_set]
        exact h.frames_length.trans h.capacity_eq.symm
      · exact fun _ => hhand
    · have hindex : Indexes b.pageMap (b.frames.map Page.id) b.count :=
        h.lookup_iff
      rw [List.map_set]
      exact hindex.load (by simpa using hlt) hlookup

/-- The second-chance sweep, as `findVictim` performs it on a full buffer. -/
theorem findVictim_spec (h : Represents C b s)
    (hfull : C ≤ s.entries.length) :
    ∃ victim frames v rest,
      b.findVictim = some (victim, { b with
        frames := frames
        hand := (victim + 1) % b.capacity }) ∧
      frames.map Page.id = b.frames.map Page.id ∧
      victim < C ∧
      sweep s.entries = some (v, rest) ∧
      (frames.rotate victim).map Page.entry = (v, false) :: rest := by
  have hlen : b.frames.length = b.capacity :=
    h.frames_length.trans h.capacity_eq.symm
  have hhand : b.hand < b.capacity := h.capacity_eq.symm ▸ h.hand_lt
  have hfuel : b.frames.countP Page.referenceBit < b.capacity + 1 :=
    Nat.lt_succ_of_le (hlen ▸ List.countP_le_length)
  obtain ⟨victim, frames, v, rest, hloop, hids, hvictim, hsweep, hrotate⟩ :=
    findVictimLoop_spec (b.capacity + 1) b hlen hhand hfuel
  refine ⟨victim, frames, v, rest, hloop, hids, h.capacity_eq ▸ hvictim, ?_,
    hrotate⟩
  have hnotroom : ¬ b.count < b.capacity := by
    rw [h.count_eq, h.capacity_eq]
    exact Nat.not_lt.mpr hfull
  rw [← h.queue_eq, queue, if_neg hnotroom]
  exact hsweep

theorem step_replace (h : Represents C b s) {p : Int}
    (hp : p ∉ s.entries.map Prod.fst) (hfull : C ≤ s.entries.length) :
    ∃ b' v, b.accessPage p = some b' ∧
      Represents C b' ((secondChance Int C).next s p) ∧
      (secondChance Int C).outcome s p = .replace v ∧
      b'.metrics = b.metrics.record (.replace v) := by
  have hmissed : Represents C
      { b with metrics := b.metrics.countRequest.countMiss } s :=
    ⟨h.capacity_eq, h.frames_length, h.count_eq, h.hand_lt, h.hand_eq_zero,
      h.queue_eq, h.lookup_iff⟩
  obtain ⟨victim, frames, v, rest, hfind, hids, hvictim, hsweep, hrotate⟩ :=
    findVictim_spec hmissed hfull
  have hcount : b.count = C :=
    Nat.le_antisymm h.count_le (h.count_eq.symm ▸ hfull)
  have hlen : frames.length = C := by
    have := congrArg List.length hids
    simpa [h.frames_length] using this
  have hlt : victim < frames.length := hlen.symm ▸ hvictim
  have hmiss : p ∉ b.pageMap := fun hmem => hp ((h.mem_iff p).mp hmem)
  have hlookup := Finmap.lookup_eq_none.mpr hmiss
  -- the victim's frame is the head of the swept queue
  rw [rotate_eq_cons hlt, List.map_cons, List.cons.injEq] at hrotate
  obtain ⟨hhead, hrest⟩ := hrotate
  have hvid : frames[victim].id = v := congrArg Prod.fst hhead
  have hserve : ChanceQueue.serve C s.entries p =
      (.replace v, rest ++ [(p, true)]) := by
    rw [ChanceQueue.serve, if_neg hp, if_neg (Nat.not_lt.mpr hfull), hsweep]
  have hentries : ((secondChance Int C).next s p).entries =
      rest ++ [(p, true)] := by
    rw [secondChance_next_entries, hserve]
  refine ⟨{ b with
    metrics := b.metrics.countRequest.countMiss.countEviction
    frames := frames.set victim (Page.load p)
    pageMap := (b.pageMap.erase v).insert p victim
    hand := (victim + 1) % b.capacity }, v, ?_, ?_,
    congrArg Prod.fst hserve, rfl⟩
  · have hnotroom : ¬ b.count < b.capacity := by
      rw [hcount, h.capacity_eq]
      exact Nat.lt_irrefl C
    rw [accessPage, hlookup]
    simp [chooseFrame, hnotroom, hfind, hlt, hvid, writeFrame]
  · refine ⟨h.capacity_eq, ?_, ?_, ?_, ?_, ?_, ?_⟩
    · simpa using hlen
    · have hsize := sweep_length hsweep
      rw [hentries, List.length_append, List.length_singleton, ← hsize]
      exact h.count_eq
    · rw [h.capacity_eq]
      exact Nat.mod_lt _ (Nat.lt_of_le_of_lt (Nat.zero_le _) hvictim)
    · intro hroom
      exact absurd hroom (by simp [hcount])
    · have hturn := rotate_set_succ hlt (Page.load p)
      rw [hlen] at hturn
      rw [hentries, queue, if_neg (by simp [hcount, h.capacity_eq])]
      simp only [h.capacity_eq]
      rw [hturn, List.map_append, hrest]
      rfl
    · have hindex : Indexes b.pageMap (b.frames.map Page.id) b.count :=
        h.lookup_iff
      have hvold : (b.frames.map Page.id)[victim]? = some v := by
        rw [← hids, List.getElem?_map, List.getElem?_eq_getElem hlt, ← hvid]
        rfl
      rw [List.map_set, hids]
      exact hindex.replace (hcount.symm ▸ hvictim) hvold hlookup

/-- The CLOCK manager refines the second-chance policy. -/
theorem refines {C : ℕ} (hC : 1 ≤ C) :
    manager.Refines (secondChance Int C) (Represents C) where
  step b s p h := by
    show ∃ b' : ClockBuffer, b.accessPage p = some b' ∧ _ ∧ b'.metrics =
      b.metrics.record ((secondChance Int C).outcome s p)
    have hout : (secondChance Int C).outcome s p =
      (ChanceQueue.serve C s.entries p).1 := rfl
    rcases ChanceQueue.serve_cases_of_pos hC s.entries p with
      ⟨hp, hserve⟩ | ⟨hp, hroom, hserve⟩ | ⟨v, rest, hp, hfull, -, -⟩
    · rw [hout, hserve]
      exact step_hit h hp
    · rw [hout, hserve]
      exact step_load h hp hroom
    · obtain ⟨b', v, haccess, hrep, houtcome, hmetrics⟩ :=
        step_replace h hp hfull
      rw [houtcome]
      exact ⟨b', haccess, hrep, hmetrics⟩

/-- Every run of the CLOCK manager is defined and follows the policy. -/
theorem run_new {C : ℕ} (hC : 1 ≤ C) (requests : List Int) :
    ∃ b, manager.run (new C) requests = some b ∧
      Represents C b ((secondChance Int C).run requests) ∧
      b.metrics.bufferHits = (secondChance Int C).hits requests ∧
      b.metrics.bufferMisses = (secondChance Int C).misses requests :=
  (refines hC).counters (represents_new hC) rfl requests

end ClockBuffer
end BufferSim
