import BufferSim.Buffer.ClockBuffer

/-!
# The representation invariant of CLOCK

`frames_`, `pageMap_`, `hand_` and `count_` are updated at different points of
`accessPage`.  `WellFormed` says how they fit together between two requests,
without the queue of the policy.

A well-formed buffer represents the queue that its frames spell out, so one
request of the simulation keeps it well formed, and by induction every run
does.
-/

namespace BufferSim
namespace ClockBuffer

open Paging Cxx

/-- The fields of a buffer with `C` frames fit together. -/
structure WellFormed (C : ℕ) (b : ClockBuffer) : Prop where
  capacity_eq : b.capacity = C
  frames_length : b.frames.length = C
  count_le : b.count ≤ C
  hand_lt : b.hand < C
  hand_eq_zero : b.count < C → b.hand = 0
  nodup_ids : ((b.frames.take b.count).map Page.id).Nodup
  lookup_iff : ∀ p i, b.pageMap.lookup p = some i ↔
    i < b.count ∧ (b.frames.map Page.id)[i]? = some p

/-- Some filled frame holds the page. -/
def Occupies (b : ClockBuffer) (p : Int) : Prop :=
  ∃ i page, i < b.count ∧ b.frames[i]? = some page ∧ page.id = p

variable {C : ℕ} {b : ClockBuffer}

theorem Represents.wellFormed {s : ChanceQueue Int C} (h : Represents C b s) :
    b.WellFormed C where
  capacity_eq := h.capacity_eq
  frames_length := h.frames_length
  count_le := h.count_le
  hand_lt := h.hand_lt
  hand_eq_zero := h.hand_eq_zero
  nodup_ids := h.nodup_ids
  lookup_iff := h.lookup_iff

namespace WellFormed

/-- The queue of a well-formed buffer is a rotation of its filled frames. -/
theorem queue_eq (h : b.WellFormed C) :
    b.queue = ((b.frames.take b.count).map Page.entry).rotate b.hand :=
  queue_eq_rotate (h.frames_length.trans h.capacity_eq.symm)
    (fun hroom => h.hand_eq_zero (h.capacity_eq ▸ hroom))

theorem queue_length (h : b.WellFormed C) : b.queue.length = b.count := by
  have hcount : b.count ≤ b.frames.length := h.frames_length ▸ h.count_le
  simp [h.queue_eq, hcount]

/-- The frames of a well-formed buffer as a second-chance queue. -/
def chanceQueue (h : b.WellFormed C) : ChanceQueue Int C where
  entries := b.queue
  nodup := by
    have hids : b.queue.map Prod.fst =
        ((b.frames.take b.count).map Page.id).rotate b.hand := by
      simp only [h.queue_eq, List.map_rotate, List.map_map]
      rfl
    simpa only [hids, List.nodup_rotate] using h.nodup_ids
  length_le := h.queue_length.trans_le h.count_le

theorem represents (h : b.WellFormed C) : Represents C b h.chanceQueue where
  capacity_eq := h.capacity_eq
  frames_length := h.frames_length
  count_eq := h.queue_length.symm
  hand_lt := h.hand_lt
  hand_eq_zero := h.hand_eq_zero
  queue_eq := rfl
  lookup_iff := h.lookup_iff

/-- The map knows exactly the pages of the filled frames. -/
theorem occupies_iff (h : b.WellFormed C) (p : Int) :
    b.Occupies p ↔ p ∈ h.chanceQueue.entries.map Prod.fst := by
  simp only [← h.represents.mem_iff, Finmap.mem_iff, h.lookup_iff, Occupies,
    List.getElem?_map, Option.map_eq_some_iff]
  exact exists_congr fun i => ⟨fun ⟨page, hi, hpage⟩ => ⟨hi, page, hpage⟩,
    fun ⟨hi, page, hpage⟩ => ⟨page, hi, hpage⟩⟩

/-- A page with a set bit in the queue sits in the frame that the map names. -/
theorem exists_frame_of_mem_queue (h : b.WellFormed C) {p : Int} {bit : Bool}
    (hp : (p, bit) ∈ b.queue) :
    ∃ i page, b.pageMap.lookup p = some i ∧ i < b.count ∧
      b.frames[i]? = some page ∧ page.id = p ∧ page.referenceBit = bit := by
  simp only [h.queue_eq, List.mem_rotate, List.mem_map] at hp
  obtain ⟨page, hpage, hentry⟩ := hp
  obtain ⟨hid, hbit⟩ : page.id = p ∧ page.referenceBit = bit := by
    simpa [Page.entry] using hentry
  obtain ⟨i, hi⟩ := List.mem_iff_getElem?.mp hpage
  obtain ⟨hlt, hframe⟩ : i < b.count ∧ b.frames[i]? = some page := by
    simpa [List.getElem?_take] using hi
  refine ⟨i, page, ?_, hlt, hframe, hid, hbit⟩
  exact (h.lookup_iff p i).mpr ⟨hlt, by simp [hframe, hid]⟩

/-- On a full buffer `findVictim` ends and returns a frame of the array. -/
theorem findVictim (h : b.WellFormed C) (hfull : b.count = C) :
    ∃ victim swept, b.findVictim = some (victim, swept) ∧ victim < C := by
  have hentries : C ≤ h.chanceQueue.entries.length :=
    (h.queue_length.trans hfull).ge
  obtain ⟨victim, frames, v, rest, hfind, -, hvictim, -, -⟩ :=
    findVictim_spec h.represents hentries
  exact ⟨victim, _, hfind, hvictim⟩

end WellFormed

/-- What a request for `p` leaves: a well-formed buffer with the page in a frame
whose bit is set.  It was a hit exactly when the page occupied a frame. -/
structure Served (C : ℕ) (b : ClockBuffer) (p : Int) (b' : ClockBuffer) :
    Prop where
  wellFormed : b'.WellFormed C
  hit_iff : b'.metrics.bufferHits = b.metrics.bufferHits + 1 ↔ b.Occupies p
  resident : ∃ i page, b'.pageMap.lookup p = some i ∧ i < b'.count ∧
    b'.frames[i]? = some page ∧ page.id = p ∧ page.referenceBit = true

/-- A request of a well-formed buffer reads and writes inside the array only. -/
theorem WellFormed.accessPage (hC : 1 ≤ C) (h : b.WellFormed C) (p : Int) :
    ∃ b', b.accessPage p = some b' ∧ Served C b p b' := by
  obtain ⟨b', haccess, hrep, hmetrics⟩ :=
    (refines hC).step b h.chanceQueue p h.represents
  have hmetrics' : b'.metrics = b.metrics.record
    ((secondChance Int C).outcome h.chanceQueue p) := hmetrics
  have hmem : (p, true) ∈ b'.queue := by
    simpa only [hrep.queue_eq] using mem_secondChance_next hC h.chanceQueue p
  refine ⟨b', haccess, hrep.wellFormed, ?_,
    hrep.wellFormed.exists_frame_of_mem_queue hmem⟩
  simp only [hmetrics', Metrics.record_bufferHits_iff, h.occupies_iff,
    (secondChance Int C).hit_iff, secondChance_resident, List.mem_toFinset]

theorem wellFormed_new (hC : 1 ≤ C) : (new C).WellFormed C :=
  (represents_new hC).wellFormed

theorem wellFormed_run (hC : 1 ≤ C) (requests : List Int) :
    ∃ b, manager.run (new C) requests = some b ∧ b.WellFormed C := by
  induction requests using List.reverseRecOn with
  | nil => exact ⟨new C, rfl, wellFormed_new hC⟩
  | append_singleton requests p ih =>
      obtain ⟨b, hrun, hwell⟩ := ih
      obtain ⟨b', haccess, hserved⟩ := hwell.accessPage hC p
      refine ⟨b', ?_, hserved.wellFormed⟩
      simp only [BufferManager.run_snoc, hrun]
      exact haccess

/-- Every reachable buffer is well formed, so `findVictim` and every further
request stay inside the array, and the request is served. -/
theorem frames_exact (hC : 1 ≤ C) (requests : List Int) :
    ∃ b, manager.run (new C) requests = some b ∧ b.WellFormed C ∧
      (b.count = C →
        ∃ victim swept, b.findVictim = some (victim, swept) ∧ victim < C) ∧
      ∀ p, ∃ b', b.accessPage p = some b' ∧ Served C b p b' := by
  obtain ⟨b, hrun, hwell⟩ := wellFormed_run hC requests
  exact ⟨b, hrun, hwell, hwell.findVictim, fun p => hwell.accessPage hC p⟩

/-- The sentinel id of an unfilled frame is an ordinary page once it is
requested. -/
theorem frames_exact_sentinel :
    ∃ b, manager.run (new 2) [-1, 4, -1] = some b ∧ b.WellFormed 2 := by
  obtain ⟨b, hrun, hwell, -⟩ :=
    frames_exact (by decide : 1 ≤ 2) [-1, 4, -1]
  exact ⟨b, hrun, hwell⟩

end ClockBuffer
end BufferSim
