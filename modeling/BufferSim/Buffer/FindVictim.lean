import BufferSim.Buffer.ClockBuffer

/-!
# The sweep of `findVictim`

The hand of a CLOCK buffer passes over frames with set reference bits, clears
these bits and stops at the first clear one.  When all bits are set it makes one
turn, after which the bit of the frame where it started is clear.  So the loop
examines each frame at most once, and the first one at most twice.

This holds for any frames, in a reachable state or not.
-/

namespace BufferSim

open Cxx

/-- `referenceBit = false;` -/
def Page.clearBit (page : Page) : Page :=
  { page with referenceBit := false }

namespace ClockBuffer

/-- The reference bit of a frame inside of the array. -/
def bitAt (b : ClockBuffer) (i : ℕ) : Option Bool :=
  b.frames[i]?.map Page.referenceBit

/-- From `b` the hand has passed over a number of frames, all with set bits, and
has stopped at the victim. -/
structure Sweeps (b : ClockBuffer) (passed victim : ℕ) (swept : ClockBuffer) :
    Prop where
  victim_eq : victim = (b.hand + passed) % b.capacity
  passed_set : ∀ j < passed, b.bitAt ((b.hand + j) % b.capacity) = some true
  /-- The victim is the first frame with a clear bit, or all bits were set. -/
  stops : (passed < b.capacity ∧ b.bitAt victim = some false) ∨
    (passed = b.capacity ∧ victim = b.hand ∧
      ∀ page ∈ b.frames, page.referenceBit = true)
  passed_cleared : ∀ j < passed,
    swept.frames[(b.hand + j) % b.capacity]? =
      b.frames[(b.hand + j) % b.capacity]?.map Page.clearBit
  others_kept : ∀ i, (∀ j < passed, (b.hand + j) % b.capacity ≠ i) →
    swept.frames[i]? = b.frames[i]?
  ids_kept : swept.frames.map Page.id = b.frames.map Page.id
  hand_eq : swept.hand = (victim + 1) % b.capacity
  rest_kept : swept = { b with frames := swept.frames, hand := swept.hand }

variable {b : ClockBuffer}

/-! ## Passing over frames -/

/-- The buffer after the hand has passed over `n` frames. -/
def passOver (b : ClockBuffer) (n : ℕ) : ClockBuffer :=
  { b with
    frames := updateFrom Page.clearBit b.frames b.hand n
    hand := (b.hand + n) % b.capacity }

theorem getElem?_passOver_of_ne (hlen : b.frames.length = b.capacity)
    {n i : ℕ} (h : ∀ j < n, (b.hand + j) % b.capacity ≠ i) :
    (b.passOver n).frames[i]? = b.frames[i]? :=
  getElem?_updateFrom_of_ne (hlen.symm ▸ h)

theorem getElem?_passOver_of_lt (hlen : b.frames.length = b.capacity)
    {n j : ℕ} (hn : n ≤ b.capacity) (hj : j < n) :
    (b.passOver n).frames[(b.hand + j) % b.capacity]? =
      b.frames[(b.hand + j) % b.capacity]?.map Page.clearBit := by
  rw [← hlen] at hn ⊢
  exact getElem?_updateFrom_of_lt hn hj

/-- Within one turn the frame under the hand was not passed before. -/
theorem getElem?_passOver_hand (hlen : b.frames.length = b.capacity) {n : ℕ}
    (hn : n < b.capacity) :
    (b.passOver n).frames[(b.passOver n).hand]? =
      b.frames[(b.hand + n) % b.capacity]? :=
  getElem?_passOver_of_ne hlen
    (fun j hj => circular_ne hj (show n < j + b.capacity by omega))

/-- One iteration that passes over one more frame. -/
theorem passOver_succ (hlen : b.frames.length = b.capacity) {n : ℕ}
    {page : Page}
    (hpage : (b.passOver n).frames[(b.passOver n).hand]? = some page) :
    { b.passOver n with
      frames := (b.passOver n).frames.set (b.passOver n).hand page.clearBit
      hand := ((b.passOver n).hand + 1) % b.capacity } =
        b.passOver (n + 1) := by
  rw [set_eq_modify hpage]
  simp only [passOver, updateFrom, hlen, Nat.mod_add_mod, Nat.add_assoc]

/-- Each frame with a set bit takes one iteration. -/
theorem findVictimLoop_add (hlen : b.frames.length = b.capacity)
    (hhand : b.hand < b.capacity) {n : ℕ} (hn : n ≤ b.capacity)
    (hset : ∀ j < n, b.bitAt ((b.hand + j) % b.capacity) = some true)
    (fuel : ℕ) :
    findVictimLoop (fuel + n) b = findVictimLoop fuel (b.passOver n) := by
  induction n generalizing fuel with
  | zero => simp [passOver, updateFrom, Nat.mod_eq_of_lt hhand]
  | succ n ih =>
      have hprev := ih (Nat.le_of_succ_le hn)
        (fun j hj => hset j (Nat.lt_succ_of_lt hj)) (fuel + 1)
      obtain ⟨page, hpage, hbit⟩ :=
        Option.map_eq_some_iff.mp (hset n (Nat.lt_succ_self n))
      have hhere := (getElem?_passOver_hand hlen hn).trans hpage
      rw [Nat.add_comm n 1, ← Nat.add_assoc, hprev,
        findVictimLoop_succ_of_set hhere hbit, Nat.add_comm 1 n,
        ← passOver_succ hlen hhere]
      rfl

/-- With less fuel the loop has not ended. -/
theorem findVictimLoop_eq_none (hlen : b.frames.length = b.capacity)
    (hhand : b.hand < b.capacity) {n : ℕ} (hn : n ≤ b.capacity)
    (hset : ∀ j < n, b.bitAt ((b.hand + j) % b.capacity) = some true) :
    findVictimLoop n b = none := by
  have hrun := findVictimLoop_add hlen hhand hn hset 0
  rw [Nat.zero_add] at hrun
  rw [hrun, findVictimLoop]

/-! ## Where the hand stops -/

/-- The number of frames with set bits from the hand on. -/
def passedFrames (b : ClockBuffer) : ℕ :=
  (b.frames.rotate b.hand).findIdx (fun page => !page.referenceBit)

theorem passedFrames_le (hlen : b.frames.length = b.capacity) :
    b.passedFrames ≤ b.capacity := by
  rw [← hlen, ← List.length_rotate b.frames b.hand]
  exact List.findIdx_le_length

/-- The frames read from the hand on. -/
theorem bitAt_eq (hlen : b.frames.length = b.capacity) {j : ℕ}
    (hj : j < (b.frames.rotate b.hand).length) :
    b.bitAt ((b.hand + j) % b.capacity) =
      some (b.frames.rotate b.hand)[j].referenceBit := by
  have hget := List.getElem?_rotate (n := b.hand)
    (show j < b.frames.length by rwa [List.length_rotate] at hj)
  rw [bitAt, ← hlen, Nat.add_comm, ← hget, List.getElem?_eq_getElem hj]
  rfl

theorem bitAt_of_lt_passedFrames (hlen : b.frames.length = b.capacity) {j : ℕ}
    (hj : j < b.passedFrames) :
    b.bitAt ((b.hand + j) % b.capacity) = some true := by
  have hlt : j < (b.frames.rotate b.hand).length :=
    hj.trans_le List.findIdx_le_length
  have hbit := List.not_of_lt_findIdx hj
  rw [bitAt_eq hlen hlt]
  simpa using hbit

theorem bitAt_passedFrames (hlen : b.frames.length = b.capacity)
    (hlt : b.passedFrames < b.capacity) :
    b.bitAt ((b.hand + b.passedFrames) % b.capacity) = some false := by
  have hlt' : b.passedFrames < (b.frames.rotate b.hand).length := by
    rwa [List.length_rotate, hlen]
  have hbit := List.findIdx_getElem (w := hlt')
  rw [bitAt_eq hlen hlt']
  exact congrArg some ((Bool.not_eq_true' _).mp hbit)

/-- After the passed frames the bit under the hand is clear: it was before, or
the hand is back at a frame that it has cleared. -/
theorem bitAt_passOver_passedFrames (hlen : b.frames.length = b.capacity)
    (hhand : b.hand < b.capacity) :
    (b.passOver b.passedFrames).bitAt
      ((b.hand + b.passedFrames) % b.capacity) = some false := by
  rcases (passedFrames_le hlen).lt_or_eq with hlt | hfull
  · have hkept := getElem?_passOver_hand hlen hlt
    have hclear := bitAt_passedFrames hlen hlt
    rwa [bitAt, ← hkept] at hclear
  · have hpos : 0 < b.passedFrames := by omega
    obtain ⟨page, hpage, -⟩ :=
      Option.map_eq_some_iff.mp (bitAt_of_lt_passedFrames hlen hpos)
    have hcleared := getElem?_passOver_of_lt hlen (passedFrames_le hlen) hpos
    have hturn : (b.hand + b.passedFrames) % b.capacity =
        (b.hand + 0) % b.capacity := by
      rw [hfull, Nat.add_mod_right, Nat.add_zero]
    rw [hturn, bitAt, hcleared, hpage]
    rfl

/-- The buffer that `findVictim` leaves behind. -/
def afterSweep (b : ClockBuffer) : ClockBuffer :=
  { b.passOver b.passedFrames with
    hand := ((b.hand + b.passedFrames) % b.capacity + 1) % b.capacity }

/-- The loop takes one iteration for each passed frame and one for the victim. -/
theorem findVictimLoop_eq (hlen : b.frames.length = b.capacity)
    (hhand : b.hand < b.capacity) (fuel : ℕ) :
    findVictimLoop fuel b =
      if b.passedFrames < fuel then
        some ((b.hand + b.passedFrames) % b.capacity, b.afterSweep)
      else none := by
  have hpassed := passedFrames_le hlen
  split
  · next hlt =>
      obtain ⟨more, rfl⟩ : ∃ more, fuel = more + 1 + b.passedFrames :=
        ⟨fuel - (b.passedFrames + 1), by omega⟩
      have hrun := findVictimLoop_add hlen hhand hpassed
        (fun j hj => bitAt_of_lt_passedFrames hlen hj) (more + 1)
      obtain ⟨page, hpage, hbit⟩ := Option.map_eq_some_iff.mp
        (bitAt_passOver_passedFrames hlen hhand)
      rw [hrun, findVictimLoop_succ_of_clear hpage hbit]
      rfl
  · next hle =>
      exact findVictimLoop_eq_none hlen hhand (by omega)
        (fun j hj => bitAt_of_lt_passedFrames hlen (by omega))

theorem stops_afterSweep (hlen : b.frames.length = b.capacity)
    (hhand : b.hand < b.capacity) :
    (b.passedFrames < b.capacity ∧
      b.bitAt ((b.hand + b.passedFrames) % b.capacity) = some false) ∨
    (b.passedFrames = b.capacity ∧
      (b.hand + b.passedFrames) % b.capacity = b.hand ∧
      ∀ page ∈ b.frames, page.referenceBit = true) := by
  rcases (passedFrames_le hlen).lt_or_eq with hlt | hfull
  · exact Or.inl ⟨hlt, bitAt_passedFrames hlen hlt⟩
  · refine Or.inr ⟨hfull, ?_, ?_⟩
    · rw [hfull, Nat.add_mod_right, Nat.mod_eq_of_lt hhand]
    · intro page hpage
      have hall : (b.frames.rotate b.hand).findIdx
          (fun page => !page.referenceBit) =
            (b.frames.rotate b.hand).length := by
        rw [List.length_rotate, hlen]
        exact hfull
      have hset := List.findIdx_eq_length.mp hall page
        (List.mem_rotate.mpr hpage)
      simpa using hset

/-- The state after the sweep, frame by frame. -/
theorem sweeps_afterSweep (hlen : b.frames.length = b.capacity)
    (hhand : b.hand < b.capacity) :
    b.Sweeps b.passedFrames ((b.hand + b.passedFrames) % b.capacity)
      b.afterSweep where
  victim_eq := rfl
  passed_set _ hj := bitAt_of_lt_passedFrames hlen hj
  stops := stops_afterSweep hlen hhand
  passed_cleared _ hj := getElem?_passOver_of_lt hlen (passedFrames_le hlen) hj
  others_kept _ h := getElem?_passOver_of_ne hlen h
  ids_kept :=
    map_updateFrom (f := Page.clearBit) (g := Page.id) (fun _ => rfl) _
  hand_eq := rfl
  rest_kept := rfl

/-- For any frames and any hand inside of the array, the loop of `findVictim`
ends after one examination for each frame that it passes over and one for the
victim, at most one more than there are frames. -/
theorem findVictim_exact (hlen : b.frames.length = b.capacity)
    (hhand : b.hand < b.capacity) :
    ∃ passed victim swept, passed ≤ b.capacity ∧
      b.Sweeps passed victim swept ∧
      b.findVictim = some (victim, swept) ∧
      ∀ fuel, findVictimLoop fuel b =
        if passed < fuel then some (victim, swept) else none := by
  have hpassed := passedFrames_le hlen
  refine ⟨b.passedFrames, (b.hand + b.passedFrames) % b.capacity, b.afterSweep,
    hpassed, sweeps_afterSweep hlen hhand, ?_, findVictimLoop_eq hlen hhand⟩
  rw [findVictim, findVictimLoop_eq hlen hhand,
    if_pos (Nat.lt_succ_of_le hpassed)]

/-- Three loaded frames with set bits, and the hand at the last one. -/
def allSet : ClockBuffer :=
  { new 3 with
    frames := [Page.load 7, Page.load 8, Page.load 9]
    hand := 2
    count := 3 }

theorem findVictim_exact_allSet :
    ∃ passed victim swept, passed ≤ 3 ∧ allSet.Sweeps passed victim swept ∧
      allSet.findVictim = some (victim, swept) ∧ victim = 2 ∧
      swept.hand = 0 := by
  obtain ⟨passed, victim, swept, hle, hsweeps, hfind, -⟩ :=
    findVictim_exact (b := allSet) rfl (by decide)
  have hvictim : allSet.findVictim.map Prod.fst = some 2 := by rfl
  rw [hfind] at hvictim
  obtain rfl : victim = 2 := Option.some.inj hvictim
  exact ⟨passed, 2, swept, hle, hsweeps, hfind, rfl, hsweeps.hand_eq⟩

end ClockBuffer
end BufferSim
