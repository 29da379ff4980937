import Mathlib.Data.List.Nodup
import Segmentor.General.Runs
import Segmentor.SubtitleText

/-!
# Single flight

Requests for one asset share the lock the flights map holds for its id.  A
request clones the lock out of the map, tries it, waits for it and becomes a
flight; a flight that is dropped releases the lock and removes the entry if
nothing else holds a reference.  A request that waits can be dropped at any
time.  Each step is what one request does between two steps of others.
-/

namespace Segmentor

open General

/-! ## Requests -/

/-- Where a request is.  A cancelled one has left the queue but not yet
dropped its clone of the lock. -/
inductive FlightPhase
  | counted
  | refused
  | queued
  | holding
  | unlocked
  | dropping
  | cancelled
  deriving DecidableEq, Repr

/-- The clones of the lock a request holds: one of its own, and one in the
wait or in the guard. -/
def FlightPhase.references : FlightPhase → ℕ
  | .counted | .refused | .unlocked | .cancelled => 1
  | .queued | .holding => 2
  | .dropping => 0

structure FlightRequest where
  caller : ℕ
  id : Text
  lock : ℕ
  phase : FlightPhase
  deriving DecidableEq, Repr

/-- The asynchronous mutex is documented to work first in, first out: it is
handed to the first of those that wait for it.  The proofs need no more than
that one request at a time has it. -/
structure AsyncMutex where
  owner : Option ℕ
  waiters : List ℕ

namespace AsyncMutex

def free : AsyncMutex where
  owner := none
  waiters := []

def release (mutex : AsyncMutex) : AsyncMutex :=
  match mutex.waiters with
  | [] => free
  | waiter :: waiters => { owner := some waiter, waiters := waiters }

/-- A wait that is dropped hands on what it had been given. -/
def abandon (mutex : AsyncMutex) (caller : ℕ) : AsyncMutex :=
  if mutex.owner = some caller then mutex.release
  else { mutex with waiters := mutex.waiters.erase caller }

end AsyncMutex

/-- The flights map, the locks allocated so far and the requests in
progress. -/
structure FlightState where
  flights : List (Text × ℕ)
  allocated : ℕ
  mutexes : ℕ → AsyncMutex
  requests : List FlightRequest

inductive FlightStep
  | enter (caller : ℕ) (id : Text)
  | tryLock (caller : ℕ)
  | poll (caller : ℕ)
  | wake (caller : ℕ)
  | unlock (caller : ℕ)
  | release (caller : ℕ)
  | remove (caller : ℕ)
  | cancel (caller : ℕ)
  | leave (caller : ℕ)
  deriving Repr

namespace FlightState

def initial : FlightState where
  flights := []
  allocated := 0
  mutexes _ := .free
  requests := []

/-- The references to a lock: of the map and of the requests. -/
def strongCount (state : FlightState) (lock : ℕ) : ℕ :=
  state.flights.countP (fun entry => entry.2 == lock) +
    (state.requests.map fun request =>
      if request.lock = lock then request.phase.references else 0).sum

def find (state : FlightState) (caller : ℕ) (phase : FlightPhase) :
    Option FlightRequest :=
  state.requests.find? fun request =>
    request.caller == caller && request.phase == phase

def move (state : FlightState) (caller : ℕ) (phase : FlightPhase) :
    FlightState :=
  { state with
    requests := state.requests.map fun request =>
      if request.caller = caller then { request with phase := phase }
      else request }

def done (state : FlightState) (caller : ℕ) : FlightState :=
  { state with
    requests := state.requests.filter fun request =>
      request.caller != caller }

def setMutex (state : FlightState) (lock : ℕ) (mutex : AsyncMutex) :
    FlightState :=
  { state with mutexes := Function.update state.mutexes lock mutex }

/-- The lock is taken out of the map, or put into it. -/
def enter (state : FlightState) (caller : ℕ) (id : Text) : FlightState :=
  match state.flights.find? fun entry => entry.1 == id with
  | some (_, lock) =>
      { state with
        requests := state.requests ++ [⟨caller, id, lock, .counted⟩] }
  | none =>
      { state with
        flights := state.flights ++ [(id, state.allocated)]
        allocated := state.allocated + 1
        requests :=
          state.requests ++ [⟨caller, id, state.allocated, .counted⟩] }

/-- The lock is taken, if nobody has it. -/
def acquire (state : FlightState) (request : FlightRequest) :
    Option FlightState :=
  if (state.mutexes request.lock).owner = none then
    some
      ((state.setMutex request.lock
        { state.mutexes request.lock with owner := some request.caller }).move
          request.caller .holding)
  else none

/-- The end of a flight's drop: its entry goes if the map's is the only
reference to the lock. -/
def removeEntry (state : FlightState) (id : Text) : FlightState :=
  match state.flights.find? fun entry => entry.1 == id with
  | some (_, lock) =>
      if state.strongCount lock = 1 then
        { state with
          flights := state.flights.filter fun entry => entry.1 != id }
      else state
  | none => state

def step (state : FlightState) : FlightStep → Option FlightState
  | .enter caller id =>
      if state.requests.any fun request => request.caller == caller then none
      else some (state.enter caller id)
  | .tryLock caller => do
      let request ← state.find caller .counted
      some ((state.acquire request).getD (state.move caller .refused))
  | .poll caller => do
      let request ← state.find caller .refused
      let mutex := state.mutexes request.lock
      some
        ((state.acquire request).getD
          ((state.setMutex request.lock
            { mutex with waiters := mutex.waiters ++ [caller] }).move
              caller .queued))
  | .wake caller => do
      let request ← state.find caller .queued
      if (state.mutexes request.lock).owner = some caller then
        some (state.move caller .holding)
      else none
  | .unlock caller => do
      let request ← state.find caller .holding
      some
        ((state.setMutex request.lock
          (state.mutexes request.lock).release).move caller .unlocked)
  | .release caller => do
      let _ ← state.find caller .unlocked
      some (state.move caller .dropping)
  | .remove caller => do
      let request ← state.find caller .dropping
      some ((state.removeEntry request.id).done caller)
  | .cancel caller => do
      let request ← state.find caller .queued
      some
        ((state.setMutex request.lock
          ((state.mutexes request.lock).abandon caller)).move
            caller .cancelled)
  | .leave caller => do
      let _ ← state.find caller .cancelled
      some (state.done caller)

/-! ## What a step keeps -/

/-- The map has one entry for each id and lock, every request that holds a
reference has its lock in the map, and a flight owns its lock. -/
structure Sound (state : FlightState) : Prop where
  callers : (state.requests.map FlightRequest.caller).Nodup
  ids : (state.flights.map Prod.fst).Nodup
  locks : (state.flights.map Prod.snd).Nodup
  bounded : ∀ entry ∈ state.flights, entry.2 < state.allocated
  listed : ∀ request ∈ state.requests, 0 < request.phase.references →
    (request.id, request.lock) ∈ state.flights
  owned : ∀ request ∈ state.requests, request.phase = .holding →
    (state.mutexes request.lock).owner = some request.caller

theorem sound_initial : initial.Sound := by
  constructor <;> simp [initial]

theorem Sound.eq_of_caller {state : FlightState} (hsound : state.Sound)
    {r s : FlightRequest} (hr : r ∈ state.requests) (hs : s ∈ state.requests)
    (hcaller : r.caller = s.caller) : r = s :=
  List.inj_on_of_nodup_map hsound.callers hr hs hcaller

theorem Sound.eq_of_id {state : FlightState} (hsound : state.Sound)
    {id : Text} {a b : ℕ} (ha : (id, a) ∈ state.flights)
    (hb : (id, b) ∈ state.flights) : a = b := by
  have hsame := List.inj_on_of_nodup_map hsound.ids ha hb rfl
  exact congrArg Prod.snd hsame

theorem Sound.eq_of_lock {state : FlightState} (hsound : state.Sound)
    {lock : ℕ} {a b : Text} (ha : (a, lock) ∈ state.flights)
    (hb : (b, lock) ∈ state.flights) : a = b := by
  have hsame := List.inj_on_of_nodup_map hsound.locks ha hb rfl
  exact congrArg Prod.fst hsame

theorem find_mem {state : FlightState} {caller : ℕ} {phase : FlightPhase}
    {request : FlightRequest} (h : state.find caller phase = some request) :
    request ∈ state.requests ∧ request.caller = caller ∧
      request.phase = phase := by
  have hsome := List.find?_some h
  rw [Bool.and_eq_true, beq_iff_eq, beq_iff_eq] at hsome
  exact ⟨List.mem_of_find?_eq_some h, hsome.1, hsome.2⟩

theorem mem_move {state : FlightState} {caller : ℕ} {phase : FlightPhase}
    {request : FlightRequest} :
    request ∈ (state.move caller phase).requests ↔
      (request ∈ state.requests ∧ request.caller ≠ caller) ∨
        ∃ old ∈ state.requests, old.caller = caller ∧
          request = { old with phase := phase } := by
  unfold move
  rw [List.mem_map]
  constructor
  · rintro ⟨old, hold, rfl⟩
    split
    · next hcaller => exact .inr ⟨old, hold, hcaller, rfl⟩
    · next hcaller => exact .inl ⟨hold, hcaller⟩
  · rintro (⟨hold, hcaller⟩ | ⟨old, hold, hcaller, rfl⟩)
    · exact ⟨request, hold, if_neg hcaller⟩
    · exact ⟨old, hold, if_pos hcaller⟩

theorem map_caller_move (state : FlightState) (caller : ℕ)
    (phase : FlightPhase) :
    (state.move caller phase).requests.map FlightRequest.caller =
      state.requests.map FlightRequest.caller := by
  unfold move
  rw [List.map_map]
  apply List.map_congr_left
  intro request _
  dsimp only [Function.comp]
  split <;> rfl

theorem setMutex_self (state : FlightState) (lock : ℕ) :
    state.setMutex lock (state.mutexes lock) = state := by
  unfold setMutex
  rw [Function.update_eq_self]

/-- One request moves on to a phase and leaves its lock as `mutex`. -/
structure MovesOn (state : FlightState) (request : FlightRequest)
    (phase : FlightPhase) (mutex : AsyncMutex) : Prop where
  mem : request ∈ state.requests
  referred : 0 < phase.references → 0 < request.phase.references
  held : phase = .holding → mutex.owner = some request.caller
  kept : ∀ caller ≠ request.caller,
    (state.mutexes request.lock).owner = some caller →
      mutex.owner = some caller

theorem Sound.move {state : FlightState} (hsound : state.Sound)
    {request : FlightRequest} {phase : FlightPhase} {mutex : AsyncMutex}
    (hmoves : state.MovesOn request phase mutex) :
    ((state.setMutex request.lock mutex).move request.caller phase).Sound where
  callers := by
    rw [map_caller_move]
    exact hsound.callers
  ids := hsound.ids
  locks := hsound.locks
  bounded := hsound.bounded
  listed := by
    intro moved hmoved hreferred
    rcases mem_move.mp hmoved with ⟨hold, -⟩ | ⟨old, hold, hcaller, rfl⟩
    · exact hsound.listed moved hold hreferred
    · obtain rfl := hsound.eq_of_caller hold hmoves.mem hcaller
      exact hsound.listed old hold (hmoves.referred hreferred)
  owned := by
    intro moved hmoved hholding
    rcases mem_move.mp hmoved with ⟨hold, hother⟩ | ⟨old, hold, hcaller, rfl⟩
    · have howned := hsound.owned moved hold hholding
      change (Function.update state.mutexes request.lock mutex
        moved.lock).owner = some moved.caller
      rcases eq_or_ne moved.lock request.lock with hlock | hlock
      · rw [hlock, Function.update_self]
        exact hmoves.kept moved.caller hother (hlock ▸ howned)
      · rw [Function.update_of_ne hlock]
        exact howned
    · obtain rfl := hsound.eq_of_caller hold hmoves.mem hcaller
      change (Function.update state.mutexes old.lock mutex
        old.lock).owner = some old.caller
      rw [Function.update_self]
      exact hmoves.held hholding

theorem Sound.enter {state : FlightState} (hsound : state.Sound)
    {caller : ℕ} {id : Text}
    (hnew : ∀ request ∈ state.requests, request.caller ≠ caller) :
    (state.enter caller id).Sound := by
  have hcallers : ∀ request : FlightRequest, request.caller = caller →
      ((state.requests ++ [request]).map FlightRequest.caller).Nodup := by
    intro request hcaller
    rw [List.map_append, List.nodup_append]
    refine ⟨hsound.callers, List.nodup_singleton _, ?_⟩
    intro a ha b hb
    obtain ⟨old, hold, rfl⟩ := List.mem_map.mp ha
    rw [List.map_singleton, List.mem_singleton] at hb
    rw [hb, hcaller]
    exact hnew old hold
  unfold FlightState.enter
  split
  · next found lock hfound =>
      have hmem := List.mem_of_find?_eq_some hfound
      have hid := List.find?_some hfound
      rw [beq_iff_eq] at hid
      subst hid
      refine ⟨hcallers _ rfl, hsound.ids, hsound.locks, hsound.bounded, ?_, ?_⟩
      · intro request hrequest hreferred
        rcases List.mem_append.mp hrequest with hold | hsame
        · exact hsound.listed request hold hreferred
        · obtain rfl := List.mem_singleton.mp hsame
          exact hmem
      · intro request hrequest hholding
        rcases List.mem_append.mp hrequest with hold | hsame
        · exact hsound.owned request hold hholding
        · obtain rfl := List.mem_singleton.mp hsame
          cases hholding
  · next hfound =>
      rw [List.find?_eq_none] at hfound
      refine ⟨hcallers _ rfl, ?_, ?_, ?_, ?_, ?_⟩
      · rw [List.map_append, List.nodup_append]
        refine ⟨hsound.ids, List.nodup_singleton _, ?_⟩
        intro a ha b hb
        obtain ⟨entry, hentry, rfl⟩ := List.mem_map.mp ha
        rw [List.map_singleton, List.mem_singleton] at hb
        rw [hb]
        simpa using hfound entry hentry
      · rw [List.map_append, List.nodup_append]
        refine ⟨hsound.locks, List.nodup_singleton _, ?_⟩
        intro a ha b hb
        obtain ⟨entry, hentry, rfl⟩ := List.mem_map.mp ha
        rw [List.map_singleton, List.mem_singleton] at hb
        rw [hb]
        exact (hsound.bounded entry hentry).ne
      · intro entry hentry
        rcases List.mem_append.mp hentry with hold | hsame
        · exact (hsound.bounded entry hold).trans (Nat.lt_succ_self _)
        · obtain rfl := List.mem_singleton.mp hsame
          exact Nat.lt_succ_self _
      · intro request hrequest hreferred
        apply List.mem_append.mpr
        rcases List.mem_append.mp hrequest with hold | hsame
        · exact .inl (hsound.listed request hold hreferred)
        · obtain rfl := List.mem_singleton.mp hsame
          exact .inr (List.mem_singleton_self _)
      · intro request hrequest hholding
        rcases List.mem_append.mp hrequest with hold | hsame
        · exact hsound.owned request hold hholding
        · obtain rfl := List.mem_singleton.mp hsame
          cases hholding

theorem mem_done {state : FlightState} {caller : ℕ}
    {request : FlightRequest} :
    request ∈ (state.done caller).requests ↔
      request ∈ state.requests ∧ request.caller ≠ caller := by
  unfold done
  rw [List.mem_filter, bne_iff_ne]

theorem Sound.done {state : FlightState} (hsound : state.Sound)
    (caller : ℕ) : (state.done caller).Sound where
  callers := hsound.callers.sublist (List.filter_sublist.map _)
  ids := hsound.ids
  locks := hsound.locks
  bounded := hsound.bounded
  listed := fun request hrequest =>
    hsound.listed request (mem_done.mp hrequest).1
  owned := fun request hrequest =>
    hsound.owned request (mem_done.mp hrequest).1

/-- A reference of the map and one of a request count as two at least. -/
theorem Sound.one_lt_strongCount {state : FlightState}
    {lock : ℕ} {id : Text} {request : FlightRequest}
    (hlisted : (id, lock) ∈ state.flights) (hmem : request ∈ state.requests)
    (hlock : request.lock = lock) (hreferred : 0 < request.phase.references) :
    1 < state.strongCount lock := by
  have hmap : 0 < state.flights.countP fun entry => entry.2 == lock :=
    List.countP_pos_iff.mpr ⟨(id, lock), hlisted, by simp⟩
  have hcount := List.single_le_sum
    (l := state.requests.map fun request =>
      if request.lock = lock then request.phase.references else 0)
    (fun _ _ => Nat.zero_le _) _ (List.mem_map_of_mem hmem)
  rw [if_pos hlock] at hcount
  unfold strongCount
  omega

theorem Sound.exists_reference {state : FlightState} (hsound : state.Sound)
    {lock : ℕ} {id : Text} (hlisted : (id, lock) ∈ state.flights)
    (hcount : state.strongCount lock ≠ 1) :
    ∃ request ∈ state.requests, request.lock = lock ∧
      0 < request.phase.references := by
  have hone : state.flights.countP (fun entry => entry.2 == lock) = 1 := by
    apply le_antisymm
    · have hle := List.nodup_iff_count_le_one.mp hsound.locks lock
      rw [List.count_eq_countP, List.countP_map] at hle
      exact hle
    · exact List.countP_pos_iff.mpr ⟨(id, lock), hlisted, by simp⟩
  by_contra hnone
  push Not at hnone
  apply hcount
  unfold strongCount
  rw [hone, Nat.add_eq_left, List.sum_eq_zero_iff]
  intro n hn
  obtain ⟨request, hrequest, rfl⟩ := List.mem_map.mp hn
  split
  · next hlock => exact Nat.le_zero.mp (hnone request hrequest hlock)
  · rfl

theorem Sound.removeEntry {state : FlightState} (hsound : state.Sound)
    (id : Text) : (state.removeEntry id).Sound := by
  unfold FlightState.removeEntry
  split
  · next found lock hfound =>
      have hmem := List.mem_of_find?_eq_some hfound
      have hid := List.find?_some hfound
      rw [beq_iff_eq] at hid
      subst hid
      split
      · next hcount =>
          refine ⟨hsound.callers, hsound.ids.sublist
            (List.filter_sublist.map _), hsound.locks.sublist
            (List.filter_sublist.map _), ?_, ?_, hsound.owned⟩
          · intro entry hentry
            exact hsound.bounded entry (List.mem_filter.mp hentry).1
          · intro request hrequest hreferred
            have hlisted := hsound.listed request hrequest hreferred
            apply List.mem_filter.mpr
            refine ⟨hlisted, ?_⟩
            rw [bne_iff_ne]
            intro hid
            change request.id = found at hid
            rw [hid] at hlisted
            have hlock := hsound.eq_of_id hlisted hmem
            have hmore := Sound.one_lt_strongCount hmem hrequest hlock
              hreferred
            omega
      · exact hsound
  · exact hsound

/-! ## What a step can do -/

/-- A lock that is tried is taken or left as it is. -/
theorem acquire_cases {state : FlightState} {request : FlightRequest}
    (hmem : request ∈ state.requests)
    (hreferred : 0 < request.phase.references) (other : FlightState) :
    (state.acquire request).getD other = other ∨
      ∃ mutex, state.MovesOn request .holding mutex ∧
        (state.acquire request).getD other =
          (state.setMutex request.lock mutex).move request.caller .holding := by
  unfold acquire
  split
  · next hfree =>
      refine .inr ⟨_, ⟨hmem, fun _ => hreferred, fun _ => rfl, ?_⟩, rfl⟩
      intro caller _ howner
      rw [hfree] at howner
      cases howner
  · exact .inl rfl

/-- A request enters, moves on, ends its flight or leaves the queue. -/
theorem step_cases {state next : FlightState} {action : FlightStep}
    (hsound : state.Sound) (h : state.step action = some next) :
    (∃ caller id, action = .enter caller id ∧
      (∀ request ∈ state.requests, request.caller ≠ caller) ∧
      next = state.enter caller id) ∨
    (∃ request phase mutex, (∀ caller, action ≠ .leave caller) ∧
      state.MovesOn request phase mutex ∧
      next = (state.setMutex request.lock mutex).move request.caller phase) ∨
    (∃ request ∈ state.requests, action = .remove request.caller ∧
      request.phase = .dropping ∧
      next = (state.removeEntry request.id).done request.caller) ∨
    ∃ request ∈ state.requests, action = .leave request.caller ∧
      request.phase = .cancelled ∧ next = state.done request.caller := by
  cases action with
  | enter caller id =>
      change (if _ then none else some (state.enter caller id)) =
        some next at h
      split at h
      · cases h
      · next hnew =>
          left
          refine ⟨caller, id, rfl, ?_, (Option.some.inj h).symm⟩
          rw [List.any_eq_true, not_exists] at hnew
          intro request hrequest hcaller
          exact hnew request ⟨hrequest, beq_iff_eq.mpr hcaller⟩
  | tryLock caller =>
      obtain ⟨request, hfind, hnext⟩ := Option.bind_eq_some_iff.mp h
      obtain ⟨hmem, rfl, hphase⟩ := find_mem hfind
      obtain rfl := Option.some.inj hnext
      have hreferred : 0 < request.phase.references := by
        rw [hphase]
        decide
      right; left
      rcases acquire_cases hmem hreferred
        (state.move request.caller .refused) with hsame | ⟨mutex, hmoves, hsame⟩
      · rw [hsame]
        refine ⟨request, .refused, state.mutexes request.lock, by simp,
          ⟨hmem, fun _ => hreferred, nofun, fun _ _ howner => howner⟩, ?_⟩
        rw [setMutex_self]
      · exact ⟨request, .holding, mutex, by simp, hmoves, hsame⟩
  | poll caller =>
      obtain ⟨request, hfind, hnext⟩ := Option.bind_eq_some_iff.mp h
      obtain ⟨hmem, rfl, hphase⟩ := find_mem hfind
      obtain rfl := Option.some.inj hnext
      have hreferred : 0 < request.phase.references := by
        rw [hphase]
        decide
      right; left
      rcases acquire_cases hmem hreferred _ with hsame | ⟨mutex, hmoves, hsame⟩
      · rw [hsame]
        refine ⟨request, .queued,
          { state.mutexes request.lock with
            waiters := (state.mutexes request.lock).waiters ++
              [request.caller] }, by simp, ⟨hmem, fun _ => hreferred, nofun, ?_⟩,
          rfl⟩
        exact fun _ _ howner => howner
      · exact ⟨request, .holding, mutex, by simp, hmoves, hsame⟩
  | wake caller =>
      obtain ⟨request, hfind, hnext⟩ := Option.bind_eq_some_iff.mp h
      obtain ⟨hmem, rfl, hphase⟩ := find_mem hfind
      split at hnext
      · next howner =>
          obtain rfl := Option.some.inj hnext
          right; left
          refine ⟨request, .holding, state.mutexes request.lock, by simp,
            ⟨hmem, ?_, fun _ => howner, fun _ _ howner => howner⟩, ?_⟩
          · intro _
            rw [hphase]
            decide
          · rw [setMutex_self]
      · cases hnext
  | unlock caller =>
      obtain ⟨request, hfind, hnext⟩ := Option.bind_eq_some_iff.mp h
      obtain ⟨hmem, rfl, hphase⟩ := find_mem hfind
      obtain rfl := Option.some.inj hnext
      right; left
      refine ⟨request, .unlocked, _, by simp, ⟨hmem, ?_, nofun, ?_⟩, rfl⟩
      · intro _
        rw [hphase]
        decide
      · intro caller hother howner
        rw [hsound.owned request hmem hphase] at howner
        exact absurd (Option.some.inj howner).symm hother
  | release caller =>
      obtain ⟨request, hfind, hnext⟩ := Option.bind_eq_some_iff.mp h
      obtain ⟨hmem, rfl, hphase⟩ := find_mem hfind
      obtain rfl := Option.some.inj hnext
      right; left
      refine ⟨request, .dropping, state.mutexes request.lock, by simp,
        ⟨hmem, nofun, nofun, fun _ _ howner => howner⟩, ?_⟩
      rw [setMutex_self]
  | remove caller =>
      obtain ⟨request, hfind, hnext⟩ := Option.bind_eq_some_iff.mp h
      obtain ⟨hmem, rfl, hphase⟩ := find_mem hfind
      right; right; left
      exact ⟨request, hmem, rfl, hphase, (Option.some.inj hnext).symm⟩
  | cancel caller =>
      obtain ⟨request, hfind, hnext⟩ := Option.bind_eq_some_iff.mp h
      obtain ⟨hmem, rfl, hphase⟩ := find_mem hfind
      obtain rfl := Option.some.inj hnext
      right; left
      refine ⟨request, .cancelled, _, by simp, ⟨hmem, ?_, nofun, ?_⟩, rfl⟩
      · intro _
        rw [hphase]
        decide
      · intro caller hother howner
        unfold AsyncMutex.abandon
        rw [howner, if_neg (fun h => hother (Option.some.inj h))]
  | leave caller =>
      obtain ⟨request, hfind, hnext⟩ := Option.bind_eq_some_iff.mp h
      obtain ⟨hmem, rfl, hphase⟩ := find_mem hfind
      right; right; right
      exact ⟨request, hmem, rfl, hphase, (Option.some.inj hnext).symm⟩

theorem Sound.step {state next : FlightState} {action : FlightStep}
    (hsound : state.Sound) (h : state.step action = some next) :
    next.Sound := by
  obtain ⟨caller, id, -, hnew, rfl⟩ | ⟨request, phase, mutex, -, hmoves, rfl⟩ |
    ⟨request, -, -, -, rfl⟩ | ⟨request, -, -, -, rfl⟩ := step_cases hsound h
  · exact hsound.enter hnew
  · exact hsound.move hmoves
  · exact (hsound.removeEntry request.id).done request.caller
  · exact hsound.done request.caller

/-! ## Entries and requests -/

/-- Every entry of the map belongs to a request in progress. -/
def Engaged (state : FlightState) : Prop :=
  ∀ entry ∈ state.flights, ∃ request ∈ state.requests, request.id = entry.1

theorem engaged_enter {state : FlightState} (hengaged : state.Engaged)
    (caller : ℕ) (id : Text) : (state.enter caller id).Engaged := by
  unfold FlightState.enter
  split
  · intro entry hentry
    obtain ⟨request, hrequest, hid⟩ := hengaged entry hentry
    exact ⟨request, List.mem_append_left _ hrequest, hid⟩
  · intro entry hentry
    rcases List.mem_append.mp hentry with hold | hsame
    · obtain ⟨request, hrequest, hid⟩ := hengaged entry hold
      exact ⟨request, List.mem_append_left _ hrequest, hid⟩
    · obtain rfl := List.mem_singleton.mp hsame
      exact ⟨_, List.mem_append_right _ (List.mem_singleton_self _), rfl⟩

theorem engaged_move {state : FlightState} (hengaged : state.Engaged)
    (lock caller : ℕ) (mutex : AsyncMutex) (phase : FlightPhase) :
    ((state.setMutex lock mutex).move caller phase).Engaged := by
  intro entry hentry
  obtain ⟨request, hrequest, hid⟩ := hengaged entry hentry
  rcases eq_or_ne request.caller caller with hcaller | hcaller
  · exact ⟨{ request with phase := phase },
      mem_move.mpr (.inr ⟨request, hrequest, hcaller, rfl⟩), hid⟩
  · exact ⟨request, mem_move.mpr (.inl ⟨hrequest, hcaller⟩), hid⟩

theorem Sound.exists_of_kept {state : FlightState} (hsound : state.Sound)
    {id : Text} {lock : ℕ}
    (hkept : (id, lock) ∈ (state.removeEntry id).flights) :
    ∃ request ∈ state.requests, request.id = id ∧
      0 < request.phase.references := by
  unfold FlightState.removeEntry at hkept
  split at hkept
  · next found lock' hfound =>
      have hmem := List.mem_of_find?_eq_some hfound
      have hid := List.find?_some hfound
      rw [beq_iff_eq] at hid
      subst hid
      split at hkept
      · simp at hkept
      · next hcount =>
          obtain ⟨request, hrequest, hlock, hreferred⟩ :=
            hsound.exists_reference hmem hcount
          have hlisted := hsound.listed request hrequest hreferred
          rw [hlock] at hlisted
          exact ⟨request, hrequest, hsound.eq_of_lock hlisted hmem, hreferred⟩
  · next hfound =>
      rw [List.find?_eq_none] at hfound
      exact absurd (beq_self_eq_true id) (hfound (id, lock) hkept)

theorem removeEntry_flights_subset (state : FlightState) (id : Text) :
    (state.removeEntry id).flights ⊆ state.flights := by
  unfold FlightState.removeEntry
  split
  · split
    · exact List.filter_subset_self _
    · exact List.Subset.refl _
  · exact List.Subset.refl _

theorem removeEntry_requests (state : FlightState) (id : Text) :
    (state.removeEntry id).requests = state.requests := by
  unfold FlightState.removeEntry
  split
  · split <;> rfl
  · rfl

theorem engaged_removeEntry {state : FlightState} (hsound : state.Sound)
    (hengaged : state.Engaged) {request : FlightRequest}
    (hmem : request ∈ state.requests) (hphase : request.phase = .dropping) :
    ((state.removeEntry request.id).done request.caller).Engaged := by
  rintro ⟨id, lock⟩ hentry
  have hother : ∃ other ∈ state.requests, other.id = id ∧
      other.caller ≠ request.caller := by
    rcases eq_or_ne id request.id with hid | hid
    · obtain ⟨other, hother, hsame, hreferred⟩ :=
        hsound.exists_of_kept (hid ▸ hentry)
      refine ⟨other, hother, hsame.trans hid.symm, ?_⟩
      intro hcaller
      obtain rfl := hsound.eq_of_caller hother hmem hcaller
      rw [hphase] at hreferred
      exact absurd hreferred (by decide)
    · obtain ⟨other, hother, hsame⟩ :=
        hengaged (id, lock) (removeEntry_flights_subset state _ hentry)
      refine ⟨other, hother, hsame, ?_⟩
      intro hcaller
      obtain rfl := hsound.eq_of_caller hother hmem hcaller
      exact hid hsame.symm
  obtain ⟨other, hother, hsame, hcaller⟩ := hother
  refine ⟨other, mem_done.mpr ⟨?_, hcaller⟩, hsame⟩
  rw [removeEntry_requests]
  exact hother

/-- A caller that drops its clone as the only request for its id. -/
def LastToLeave (state : FlightState) : FlightStep → Prop
  | .leave caller => ∃ request ∈ state.requests, request.caller = caller ∧
      ∀ other ∈ state.requests, other.id = request.id → other.caller = caller
  | _ => False

theorem engaged_done_iff {state : FlightState} (hsound : state.Sound)
    (hengaged : state.Engaged) {request : FlightRequest}
    (hmem : request ∈ state.requests) (hphase : request.phase = .cancelled) :
    (state.done request.caller).Engaged ↔
      ¬ state.LastToLeave (.leave request.caller) := by
  constructor
  · rintro hdone ⟨same, hsame, hcaller, hlast⟩
    obtain rfl := hsound.eq_of_caller hsame hmem hcaller
    have hlisted := hsound.listed same hmem (by
      rw [hphase]
      decide)
    obtain ⟨other, hother, hid⟩ := hdone _ hlisted
    obtain ⟨hother, hcaller'⟩ := mem_done.mp hother
    exact hcaller' (hlast other hother hid)
  · intro hlast entry hentry
    obtain ⟨other, hother, hid⟩ := hengaged entry hentry
    rcases eq_or_ne other.caller request.caller with hcaller | hcaller
    · obtain rfl := hsound.eq_of_caller hother hmem hcaller
      by_contra hnone
      apply hlast
      refine ⟨other, hother, rfl, ?_⟩
      intro third hthird hsame
      by_contra hcaller'
      exact hnone ⟨third, mem_done.mpr ⟨hthird, hcaller'⟩, hsame.trans hid⟩
    · exact ⟨other, mem_done.mpr ⟨hother, hcaller⟩, hid⟩

/-- A step keeps every entry engaged unless the last request for an id gives
up its wait. -/
theorem engaged_step_iff {state next : FlightState} {action : FlightStep}
    (hsound : state.Sound) (hengaged : state.Engaged)
    (h : state.step action = some next) :
    next.Engaged ↔ ¬ state.LastToLeave action := by
  obtain ⟨caller, id, rfl, -, rfl⟩ |
    ⟨request, phase, mutex, hstays, -, rfl⟩ |
    ⟨request, hmem, rfl, hphase, rfl⟩ | ⟨request, hmem, rfl, hphase, rfl⟩ :=
      step_cases hsound h
  · exact iff_of_true (engaged_enter hengaged caller id) not_false
  · apply iff_of_true (engaged_move hengaged _ _ _ _)
    intro hlast
    cases action with
    | leave caller => exact hstays caller rfl
    | _ => exact hlast
  · exact iff_of_true (engaged_removeEntry hsound hengaged hmem hphase)
      not_false
  · exact engaged_done_iff hsound hengaged hmem hphase

/-! ## Runs -/

/-- One flight for an id at most, and no entry without a request. -/
structure SingleFlight (state : FlightState) : Prop where
  exclusive : ∀ a ∈ state.requests, ∀ b ∈ state.requests,
    a.phase = .holding → b.phase = .holding → a.id = b.id → a = b
  engaged : state.Engaged
  idle : state.requests = [] → state.flights = []

theorem Sound.exclusive {state : FlightState} (hsound : state.Sound)
    {a b : FlightRequest} (ha : a ∈ state.requests) (hb : b ∈ state.requests)
    (haholds : a.phase = .holding) (hbholds : b.phase = .holding)
    (hid : a.id = b.id) : a = b := by
  have halisted := hsound.listed a ha (by
    rw [haholds]
    decide)
  have hblisted := hsound.listed b hb (by
    rw [hbholds]
    decide)
  rw [hid] at halisted
  have hlock := hsound.eq_of_id halisted hblisted
  have haowner := hsound.owned a ha haholds
  rw [hlock, hsound.owned b hb hbholds] at haowner
  exact hsound.eq_of_caller ha hb (Option.some.inj haowner).symm

theorem Sound.singleFlight_iff {state : FlightState} (hsound : state.Sound) :
    state.SingleFlight ↔ state.Engaged := by
  constructor
  · exact SingleFlight.engaged
  · intro hengaged
    refine ⟨fun a ha b hb => hsound.exclusive ha hb, hengaged, ?_⟩
    intro hidle
    apply List.eq_nil_iff_forall_not_mem.mpr
    intro entry hentry
    obtain ⟨request, hrequest, -⟩ := hengaged entry hentry
    rw [hidle] at hrequest
    cases hrequest

/-- Single flight leaves nothing behind in exactly the runs in which no
request gives up its wait as the last one for its id. -/
theorem singleFlight_throughout_iff (actions : List FlightStep) :
    Throughout step SingleFlight initial actions ↔
      EachStep step (fun state action => ¬ state.LastToLeave action) initial
        actions := by
  apply throughout_iff_eachStep sound_initial
  · rw [sound_initial.singleFlight_iff]
    intro entry hentry
    cases hentry
  · intro state action next hsound h
    exact hsound.step h
  · intro state action next hsound hsingle h
    rw [(hsound.step h).singleFlight_iff]
    exact engaged_step_iff hsound hsingle.engaged h

/-- A flight ends while another request waits, which then gives up although
the lock has just been handed to it. -/
def abandonedWait : List FlightStep :=
  [.enter 0 "movie".toList, .tryLock 0, .enter 1 "movie".toList, .tryLock 1,
    .poll 1, .unlock 0, .release 0, .remove 0, .cancel 1, .leave 1]

theorem abandonedWait_leaves_entry :
    ¬ Throughout step SingleFlight initial abandonedWait := by
  intro hthroughout
  have hfinal : (finalState step initial abandonedWait).map
      (fun state => (state.requests, state.flights)) =
        some ([], [("movie".toList, 0)]) := by
    decide
  obtain ⟨final, hreached, hleft⟩ := Option.map_eq_some_iff.mp hfinal
  obtain ⟨hrequests, hflights⟩ := Prod.mk.inj hleft
  have hidle := (hthroughout.final hreached).idle hrequests
  rw [hflights] at hidle
  cases hidle

end FlightState

end Segmentor
