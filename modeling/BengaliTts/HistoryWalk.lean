import BengaliTts.Answers
import BengaliTts.JobReads
import BengaliTts.RowConsistency
import Mathlib.Data.Fintype.Order
import Mathlib.Data.Set.Finite.List

/-!
# Walking the history

A client asks for the first page of its history and follows `nextCursor` until it
is null, while the service goes on: submissions insert rows, failed submissions
delete theirs, workers change statuses.  A `Walk` is the service together with
what the client has been answered so far.

A page starts behind the row of its cursor, which is looked up again.  The row may
be gone by then, if its submission failed to enqueue it; then the page is empty
and the walk is over.

Main result:
* `history_walk`: a walk ends and lists its jobs in strictly decreasing order, each
  once; it misses none of those that were there all along, unless the row of its
  cursor was deleted while some of them were still to come.
-/

namespace BengaliTts

open Lib

section Walk

/-- A client on its way through the history of a user. -/
structure Walk where
  system : Service
  /-- History: the jobs table when the walk began. -/
  atStart : List Job
  /-- The jobs of the pages so far. -/
  listed : List JobView
  /-- The cursor of the next request; no request follows the last page. -/
  next : Option (Option Uuid)

inductive WalkEvent where
  | service (e : ServiceEvent)
  /-- The client asks for the next page. -/
  | page

def Walk.start (s : Service) : Walk :=
  ⟨s, s.world.jobs, [], some none⟩

/-- `?limit=...&cursor=...`. -/
def pageQuery (limit : Nat) (cursor : Option Uuid) : Query where
  limit := some (some limit)
  cursor := cursor.map fun c => .single c.text

def Walk.step (d : Deps) (report : Query → List Issue) (user : Uuid) (limit : Nat) (s : Walk) :
    WalkEvent → Option Walk
  | .service e => ((service d).machine.step s.system e).map fun t => { s with system := t }
  | .page =>
      match s.next with
      | none => none
      | some cursor =>
          match respond report s.system.world user (.history (pageQuery limit cursor)) with
          | .success _ (.history jobs nextCursor) =>
              some { s with listed := s.listed ++ jobs, next := nextCursor.map some }
          | _ => none

def walkMachine (d : Deps) (report : Query → List Issue) (user : Uuid) (limit : Nat) :
    Machine Walk WalkEvent where
  step := Walk.step d report user limit

end Walk

section Statements

/-- Where a listed job stands in the history. -/
def JobView.position (v : JobView) : Nat ×ₗ String :=
  toLex (v.createdAt, v.id.text)

/-- The ids of new rows are ids that the routes accept. -/
def GeneratesIds (_ : Service) : ServiceEvent → Prop
  | .act _ (.handler (.create id _)) => uuid? id.text = some id
  | _ => True

/-- Any walk; only the ids of new rows are as the database client generates them. -/
def AnyWalk (s : Walk) : WalkEvent → Prop
  | .service e => GeneratesIds s.system e
  | .page => True

/-- At a page request the row of the cursor is in the table, or every job of the
user that was there at the start and still is stands at the cursor or before it. -/
def CursorKept (user : Uuid) (s : Walk) : WalkEvent → Prop
  | .service e => GeneratesIds s.system e
  | .page =>
      ∀ c v, s.next = some (some c) → s.listed.getLast? = some v →
        HasRow s.system.world c ∨
          ∀ r, r ∈ s.atStart → r.userId = user → HasRow s.system.world r.id →
            v.position ≤ r.position

/-- The client has been answered every request, each job comes once, and the jobs
come in strictly decreasing order. -/
structure WalksInOrder (d : Deps) (report : Query → List Issue) (user : Uuid) (limit : Nat)
    (s : Walk) : Prop where
  answered : s.next ≠ none → ((walkMachine d report user limit).step s .page).isSome = true
  distinct : (s.listed.map JobView.id).Nodup
  decreasing : s.listed.Pairwise fun a b => b.position < a.position

/-- A walk that is over has listed, exactly once, every job of the user that was
there at its start and still is. -/
def ListsAll (user : Uuid) (s : Walk) : Prop :=
  s.next = none → ∀ r, r ∈ s.atStart → r.userId = user → HasRow s.system.world r.id →
    (s.listed.map JobView.id).count r.id = 1

end Statements

section Pages

variable {jobs : List Job} {user : Uuid}

/-- The user's jobs below a position, newest first. -/
def older (jobs : List Job) (user : Uuid) (bound : Option (Nat ×ₗ String)) : List Job :=
  (orderByDesc Job.position (jobs.filter (ownedBy user))).filter fun r =>
    bound.all fun p => decide (r.position < p)

theorem mem_older
    {bound : Option (Nat ×ₗ String)} {r : Job} :
    r ∈ older jobs user bound ↔
      (r ∈ jobs ∧ r.userId = user) ∧ ∀ p, bound = some p → r.position < p := by
  unfold older
  rw [List.mem_filter, mem_orderByDesc, List.mem_filter, ownedBy_iff]
  cases bound <;> simp

theorem pairwise_older
    (hunique : UniqueKey Job.id jobs)
    (bound : Option (Nat ×ₗ String)) :
    (older jobs user bound).Pairwise fun a b => b.position < a.position :=
  (pairwise_orderByDesc (uniqueKey_position (uniqueKey_filter _ hunique))).filter _

theorem findMany_first
    (take : Nat) :
    findMany jobs user take none = (older jobs user none).take take := by
  simp [findMany, older]

/-- Behind a row of the user come the user's jobs below it. -/
theorem findMany_after
    {row : Job}
    (take : Nat)
    (hunique : UniqueKey Job.id jobs)
    (hrow : row ∈ jobs)
    (huser : row.userId = user) :
    findMany jobs user take (some row.id) = (older jobs user (some row.position)).take take := by
  have hordered : (orderByDesc Job.position (jobs.filter (ownedBy user))).Pairwise
      fun a b => b.position < a.position :=
    pairwise_orderByDesc (uniqueKey_position (uniqueKey_filter _ hunique))
  have hmem : row ∈ orderByDesc Job.position (jobs.filter (ownedBy user)) := by
    rw [mem_orderByDesc, List.mem_filter, ownedBy_iff]
    exact ⟨hrow, huser⟩
  rw [findMany_of_row take hunique hrow, filter_le_eq_cons hordered hmem]
  simp [older]

end Pages

section Requests

variable {user : Uuid} {limit : Nat}

/-- The walk's requests are valid. -/
theorem historyQuerySchema_pageQuery
    (report : Query → List Issue)
    {cursor : Option Uuid}
    (hpos : 1 ≤ limit)
    (hle : limit ≤ 100)
    (hcursor : ∀ c, cursor = some c → uuid? c.text = some c) :
    historyQuerySchema report (pageQuery limit cursor) = .ok ⟨limit, cursor, hpos, hle⟩ := by
  have hlimit : parseLimit (pageQuery limit cursor).limit = some ⟨limit, hpos, hle⟩ := by
    simp [parseLimit, pageQuery, hpos, hle]
  have hparsed : parseCursor (pageQuery limit cursor).cursor = some cursor := by
    cases cursor with
    | none => rfl
    | some c => simp [parseCursor, pageQuery, hcursor c rfl]
  simp only [historyQuerySchema, hlimit, hparsed]

/-- What one request gets: some of the user's jobs, in order and below the jobs
listed before, up to the cursor that comes with them or to the end. -/
structure PageOf (w : World) (user : Uuid) (listed : List JobView) (cursor : Option Uuid)
    (page : List Job) (nextCursor : Option Uuid) : Prop where
  own : ∀ r, r ∈ page → r ∈ w.jobs ∧ r.userId = user
  decreasing : page.Pairwise fun a b => b.position < a.position
  below : ∀ r v, r ∈ page → v ∈ listed → r.position < v.position
  next : ∀ c, nextCursor = some c → ∃ r, page.getLast? = some r ∧ r.id = c
  covers : (∀ c, cursor = some c → HasRow w c) →
    ∀ q, q ∈ w.jobs → q.userId = user → (∀ v, v ∈ listed → q.position < v.position) →
      (nextCursor = none ∨ ∃ r, page.getLast? = some r ∧ r.position ≤ q.position) → q ∈ page

/-- The listed jobs were submitted by the user and come in order. -/
structure ListedOk (w : World) (user : Uuid) (listed : List JobView) : Prop where
  known : ∀ v, v ∈ listed → ∃ i b, (i, b) ∈ w.born ∧ b.userId = user ∧
    b.id = v.id ∧ b.createdAt = v.createdAt
  decreasing : listed.Pairwise fun a b => b.position < a.position

/-- The cursor is the last of the jobs listed before. -/
structure CursorOf (listed : List JobView) (cursor : Option Uuid) : Prop where
  first : cursor = none → listed = []
  last : ∀ c, cursor = some c → ∃ v, listed.getLast? = some v ∧ v.id = c

theorem ListedOk.last_le
    {w : World} {listed : List JobView} {u v : JobView}
    (h : ListedOk w user listed)
    (hlast : listed.getLast? = some v)
    (hu : u ∈ listed) :
    v.position ≤ u.position := by
  have hsplit := List.dropLast_append_getLast? v hlast
  have hdec := h.decreasing
  rw [← hsplit] at hu hdec
  rcases List.mem_append.mp hu with hbefore | hself
  · exact ((List.pairwise_append.mp hdec).2.2 u hbefore v (List.mem_singleton_self v)).le
  · rw [List.mem_singleton.mp hself]

/-- A row under the id of a listed job stands where that job was listed. -/
theorem ListedOk.row
    {w : World} {listed : List JobView} {v : JobView} {r : Job}
    (hw : WorldOk w)
    (h : ListedOk w user listed)
    (hv : v ∈ listed)
    (hr : r ∈ w.jobs)
    (hid : r.id = v.id) :
    r.userId = user ∧ r.position = v.position := by
  obtain ⟨i, b, hb, huser, hbid, hcreated⟩ := h.known v hv
  obtain ⟨j, b', hb', hsame⟩ := hw.rowsBorn r hr
  have heq := eq_of_uniqueKey hw.bornUnique hb hb' (hbid.trans (hid.symm.trans hsame.id.symm))
  cases heq
  refine ⟨hsame.userId.symm.trans huser, ?_⟩
  simp only [Job.position, JobView.position, ← hsame.createdAt, hcreated, hid]

/-- The beginning of the jobs below the ones listed before is a page. -/
theorem pageOf_older
    {w : World} {listed : List JobView} {cursor : Option Uuid}
    {bound : Option (Nat ×ₗ String)}
    (hpos : 1 ≤ limit)
    (hunique : UniqueKey Job.id w.jobs)
    (hbound : ∀ q, (∀ p, bound = some p → q < p) ↔ ∀ v, v ∈ listed → q < v.position) :
    PageOf w user listed cursor ((older w.jobs user bound).take limit)
      (if ((older w.jobs user bound).take (limit + 1)).length > limit then
        ((older w.jobs user bound).take limit).getLast?.map Job.id
      else
        none) where
  own := fun r hr => (mem_older.mp (List.mem_of_mem_take hr)).1
  decreasing := (pairwise_older hunique bound).sublist (List.take_sublist _ _)
  below := by
    intro r v hr hv
    exact (hbound _).mp (mem_older.mp (List.mem_of_mem_take hr)).2 v hv
  next := by
    intro c hc
    split at hc
    · exact Option.map_eq_some_iff.mp hc
    · cases hc
  covers := by
    intro _ q hq huser hbelow hend
    have hmem : q ∈ older w.jobs user bound := mem_older.mpr ⟨⟨hq, huser⟩, (hbound _).mpr hbelow⟩
    rcases hend with hnone | ⟨r, hlast, hle⟩
    · split at hnone
      · next hmore =>
          -- A page that is not the last one has a last row.
          have hempty := List.getLast?_eq_none_iff.mp (Option.map_eq_none_iff.mp hnone)
          rcases List.take_eq_nil_iff.mp hempty with hzero | hnil
          · omega
          · rw [hnil] at hmem
            cases hmem
      · next hmore =>
          rw [List.length_take] at hmore
          rw [List.take_of_length_le (by omega)]
          exact hmem
    · exact mem_take_of_last_le (pairwise_older hunique bound) hlast hmem hle

/-- What the history answers to a request of the walk is a page. -/
theorem pageOf_findMany
    {w : World} {listed : List JobView} {cursor : Option Uuid}
    (hpos : 1 ≤ limit)
    (hw : WorldOk w)
    (hlisted : ListedOk w user listed)
    (hcursor : CursorOf listed cursor) :
    PageOf w user listed cursor ((findMany w.jobs user (limit + 1) cursor).take limit)
      (if (findMany w.jobs user (limit + 1) cursor).length > limit then
        ((findMany w.jobs user (limit + 1) cursor).take limit).getLast?.map Job.id
      else
        none) := by
  have htake : ∀ rows : List Job, (rows.take (limit + 1)).take limit = rows.take limit := by
    intro rows
    rw [List.take_take, Nat.min_eq_left (Nat.le_succ limit)]
  cases hc : cursor with
  | none =>
      have hempty := hcursor.first hc
      subst hempty
      rw [findMany_first, htake]
      exact pageOf_older hpos hw.rowsUnique (by simp)
  | some c =>
      by_cases hrow : HasRow w c
      · obtain ⟨row, hrow, rfl⟩ := hrow
        obtain ⟨v, hlast, hid⟩ := hcursor.last _ hc
        obtain ⟨huser, hposition⟩ :=
          hlisted.row hw (List.mem_of_getLast? hlast) hrow hid.symm
        rw [findMany_after _ hw.rowsUnique hrow huser, htake]
        refine pageOf_older hpos hw.rowsUnique ?_
        intro q
        constructor
        · intro hq u hu
          exact lt_of_lt_of_le (hq _ rfl) (hposition ▸ hlisted.last_le hlast hu)
        · rintro hq p ⟨⟩
          exact hposition ▸ hq v (List.mem_of_getLast? hlast)
      · have hmissing : findMany w.jobs user (limit + 1) (some c) = [] :=
          findMany_of_missing _ fun r hr hid => hrow ⟨r, hr, hid⟩
        rw [hmissing]
        refine ⟨by simp, by simp, by simp, by simp, ?_⟩
        intro hkept
        exact absurd (hkept c rfl) hrow

end Requests

section Invariant

variable {d : Deps} {report : Query → List Issue} {user : Uuid} {limit : Nat}

/-- A row is born in the INSERT of a submission. -/
theorem born_of_step
    {s t : Service} {e : ServiceEvent} {b : Nat × Job}
    (hs : (service d).machine.step s e = some t)
    (hb : b ∈ t.world.born) :
    b ∈ s.world.born ∨ ∃ i createdAt, e = .act i (.handler (.create b.2.id createdAt)) := by
  cases serviceStep_of_step hs with
  | spawn => exact Or.inl hb
  | @handler i h _ _ _ hp hstep =>
      generalize h.pc = pc at hstep
      cases hstep with
      | insert text id createdAt =>
          rcases List.mem_cons.mp hb with rfl | hb
          · exact Or.inr ⟨i, createdAt, rfl⟩
          · exact Or.inl hb
      | _ => exact Or.inl hb
  | call _ _ hstep => exact Or.inl ((callFrame_of_callStep hstep).born ▸ hb)
  | @env b _ henv =>
      cases b <;> cases henv <;> exact Or.inl hb

/-- The ids of the rows are ids that the routes accept. -/
theorem uuid?_of_run
    {s : Service} {es : List ServiceEvent}
    (hrun : ServiceRun d GeneratesIds es s) :
    ∀ b, b ∈ s.world.born → uuid? b.2.id.text = some b.2.id := by
  refine Machine.run_invariant
    (I := fun u => ∀ b, b ∈ u.world.born → uuid? b.2.id.text = some b.2.id) ?_ hrun ?_
  · intro u e v hI hG hs b hb
    rcases born_of_step hs hb with hold | ⟨i, createdAt, rfl⟩
    · exact hI b hold
    · exact hG
  · intro b hb
    cases hb

/-- What every walk keeps. -/
structure WalkOk (user : Uuid) (s : Walk) : Prop where
  listed : ListedOk s.system.world user s.listed
  cursor : ∀ cursor, s.next = some cursor → CursorOf s.listed cursor
  start : ∀ r, r ∈ s.atStart → r.id ∈ s.system.world.everCommitted ∧
    ∃ i b, (i, b) ∈ s.system.world.born ∧ SameSubmission b r

/-- The jobs of the start that are still there and that the walk has passed are listed. -/
def Covered (user : Uuid) (s : Walk) : Prop :=
  ∀ r, r ∈ s.atStart → r.userId = user → HasRow s.system.world r.id →
    (s.next = none ∨ ∃ v, s.listed.getLast? = some v ∧ v.position ≤ r.position) →
      r.id ∈ s.listed.map JobView.id

theorem walkOk_start
    {s : Service}
    (hw : WorldOk s.world) :
    WalkOk user (Walk.start s) where
  listed := ⟨by simp [Walk.start], List.Pairwise.nil⟩
  cursor := by
    rintro cursor ⟨⟩
    exact ⟨fun _ => rfl, by simp⟩
  start := fun r hr => ⟨hw.rowsCommitted r hr, hw.rowsBorn r hr⟩

/-- **A request** is answered with a page. -/
theorem step_page
    (report : Query → List Issue)
    {s : Walk} {cursor : Option Uuid} {fs : List ServiceEvent}
    (hpos : 1 ≤ limit)
    (hle : limit ≤ 100)
    (hfs : ServiceRun d GeneratesIds fs s.system)
    (hok : WalkOk user s)
    (hnext : s.next = some cursor) :
    ∃ page nextCursor, PageOf s.system.world user s.listed cursor page nextCursor ∧
      (walkMachine d report user limit).step s .page =
        some { s with
          listed := s.listed ++ page.map serializeJob
          next := nextCursor.map some } := by
  have hcursor := hok.cursor cursor hnext
  have huuid : ∀ c, cursor = some c → uuid? c.text = some c := by
    intro c hc
    obtain ⟨v, hlast, hid⟩ := hcursor.last c hc
    obtain ⟨i, b, hb, _, hbid, _⟩ := hok.listed.known v (List.mem_of_getLast? hlast)
    have hparsed := uuid?_of_run hfs _ hb
    rwa [hbid, hid] at hparsed
  refine ⟨_, _, pageOf_findMany hpos (serviceOk_of_run hfs).1 hok.listed hcursor, ?_⟩
  simp only [walkMachine, Walk.step, hnext, respond, readRoute,
    getHistory_of_parsed s.system.world user
      (historyQuerySchema_pageQuery report hpos hle huuid)]

/-- What the service does between two requests leaves the walk in order. -/
theorem walkOk_of_service
    {s : Walk} {t : Service} {e : ServiceEvent}
    (hsys : ServiceOk d s.system)
    (hs : (service d).machine.step s.system e = some t)
    (hok : WalkOk user s) :
    WalkOk user { s with system := t } := by
  have hgrows := grows_of_step hsys hs
  refine ⟨⟨?_, hok.listed.decreasing⟩, hok.cursor, ?_⟩
  · intro v hv
    obtain ⟨i, b, hb, hrest⟩ := hok.listed.known v hv
    exact ⟨i, b, hgrows.born _ hb, hrest⟩
  · intro r hr
    obtain ⟨hid, i, b, hb, hsame⟩ := hok.start r hr
    exact ⟨hgrows.committed _ hid, i, b, hgrows.born _ hb, hsame⟩

theorem covered_of_service
    {s : Walk} {t : Service} {e : ServiceEvent}
    (hsys : ServiceOk d s.system)
    (hs : (service d).machine.step s.system e = some t)
    (hok : WalkOk user s)
    (hcov : Covered user s) :
    Covered user { s with system := t } := by
  intro r hr huser hrow hpassed
  exact hcov r hr huser (hadRow_of_step hsys hs (hok.start r hr).1 hrow) hpassed

theorem getLast?_listed
    {listed : List JobView} {page : List Job} {r : Job}
    (h : page.getLast? = some r) :
    (listed ++ page.map serializeJob).getLast? = some (serializeJob r) := by
  rw [List.getLast?_append, List.getLast?_map, h]
  rfl

/-- A page leaves the walk in order. -/
theorem walkOk_of_page
    {s : Walk} {cursor nextCursor : Option Uuid} {page : List Job}
    (hw : WorldOk s.system.world)
    (hok : WalkOk user s)
    (hpage : PageOf s.system.world user s.listed cursor page nextCursor) :
    WalkOk user { s with
      listed := s.listed ++ page.map serializeJob
      next := nextCursor.map some } where
  listed := by
    constructor
    · intro v hv
      rcases List.mem_append.mp hv with hold | hnew
      · exact hok.listed.known v hold
      · obtain ⟨r, hr, rfl⟩ := List.mem_map.mp hnew
        obtain ⟨hrow, huser⟩ := hpage.own r hr
        obtain ⟨i, b, hb, hsame⟩ := hw.rowsBorn r hrow
        exact ⟨i, b, hb, hsame.userId.trans huser, hsame.id, hsame.createdAt⟩
    · refine List.pairwise_append.mpr
        ⟨hok.listed.decreasing, List.pairwise_map.mpr hpage.decreasing, ?_⟩
      intro v hv u hu
      obtain ⟨r, hr, rfl⟩ := List.mem_map.mp hu
      exact hpage.below r v hr hv
  cursor := by
    intro cursor' hcursor'
    obtain ⟨c, hc, rfl⟩ := Option.map_eq_some_iff.mp hcursor'
    refine ⟨by simp, ?_⟩
    rintro _ ⟨⟩
    obtain ⟨r, hlast, hid⟩ := hpage.next c hc
    exact ⟨serializeJob r, getLast?_listed hlast, hid⟩
  start := hok.start

/-- A page covers what it passes, if the row of the cursor is still there or
nothing from the start is left below it. -/
theorem covered_of_page
    {s : Walk} {cursor nextCursor : Option Uuid} {page : List Job}
    (hw : WorldOk s.system.world)
    (hok : WalkOk user s)
    (hnext : s.next = some cursor)
    (hkept : CursorKept user s .page)
    (hpage : PageOf s.system.world user s.listed cursor page nextCursor)
    (hcov : Covered user s) :
    Covered user { s with
      listed := s.listed ++ page.map serializeJob
      next := nextCursor.map some } := by
  intro r hr huser hrow hpassed
  rw [List.map_append, List.mem_append]
  by_cases hold : ∃ v, s.listed.getLast? = some v ∧ v.position ≤ r.position
  · exact Or.inl (hcov r hr huser hrow (Or.inr hold))
  · -- The walk had not passed the job, so its row stands below all listed ones.
    right
    obtain ⟨q, hq, hid⟩ := hrow
    obtain ⟨_, i, b, hb, hsame⟩ := hok.start r hr
    have hsub := sameSubmission_of_born hw hb hsame hq hid.symm
    have hposition : q.position = r.position := by
      simp only [Job.position, hsub.createdAt, hsub.id]
    have hbelow : ∀ v, v ∈ s.listed → q.position < v.position := by
      intro v hv
      cases hlast : s.listed.getLast? with
      | none =>
          rw [List.getLast?_eq_none_iff.mp hlast] at hv
          cases hv
      | some u =>
          have hlt : r.position < u.position :=
            not_le.mp fun hle => hold ⟨u, hlast, hle⟩
          exact hposition ▸ hlt.trans_le (hok.listed.last_le hlast hv)
    have hthere : ∀ c, cursor = some c → HasRow s.system.world c := by
      rintro c rfl
      obtain ⟨v, hlast, _⟩ := (hok.cursor _ hnext).last c rfl
      refine (hkept c v hnext hlast).resolve_right ?_
      intro hnone
      exact hold ⟨v, hlast, hnone r hr huser ⟨q, hq, hid⟩⟩
    have hmem : q ∈ page := by
      refine hpage.covers hthere q hq (hsub.userId.symm.trans huser) hbelow ?_
      rcases hpassed with hover | ⟨v, hlast, hle⟩
      · exact Or.inl (Option.map_eq_none_iff.mp hover)
      · right
        cases hpl : page.getLast? with
        | none =>
            have hempty := List.getLast?_eq_none_iff.mp hpl
            subst hempty
            exact absurd ⟨v, by simpa using hlast, hle⟩ hold
        | some x =>
            have hx := Option.some.inj ((getLast?_listed hpl).symm.trans hlast)
            subst hx
            rw [← hposition] at hle
            exact ⟨x, rfl, hle⟩
    exact List.mem_map.mpr ⟨serializeJob q, List.mem_map_of_mem hmem, hid⟩

end Invariant

section Runs

variable {d : Deps} {report : Query → List Issue} {user : Uuid} {limit : Nat}
  {s₀ : Service} {es₀ : List ServiceEvent}

/-- What a step of a walk is. -/
inductive WalkStep (d : Deps) (user : Uuid) (s : Walk) : WalkEvent → Walk → Prop
  | service {e : ServiceEvent} {t : Service}
      (hs : (service d).machine.step s.system e = some t) :
      WalkStep d user s (.service e) { s with system := t }
  | page {cursor nextCursor : Option Uuid} {page : List Job}
      (hnext : s.next = some cursor)
      (hpage : PageOf s.system.world user s.listed cursor page nextCursor) :
      WalkStep d user s .page
        { s with
          listed := s.listed ++ page.map serializeJob
          next := nextCursor.map some }

/-- **Inversion.**  Everything a step of a walk can do. -/
theorem walkStep_of_step
    {s t : Walk} {e : WalkEvent} {fs : List ServiceEvent}
    (hpos : 1 ≤ limit)
    (hle : limit ≤ 100)
    (hfs : ServiceRun d GeneratesIds fs s.system)
    (hok : WalkOk user s)
    (hs : (walkMachine d report user limit).step s e = some t) :
    WalkStep d user s e t := by
  cases e with
  | service e =>
      obtain ⟨t, ht, rfl⟩ := Option.map_eq_some_iff.mp hs
      exact .service ht
  | page =>
      cases hnext : s.next with
      | none => simp [walkMachine, Walk.step, hnext] at hs
      | some cursor =>
          obtain ⟨page, nextCursor, hpage, hstep⟩ :=
            step_page report hpos hle hfs hok hnext
          cases hstep.symm.trans hs
          exact .page hnext hpage

theorem walkOk_of_step
    {s t : Walk} {e : WalkEvent}
    (hsys : ServiceOk d s.system)
    (hs : WalkStep d user s e t)
    (hok : WalkOk user s) :
    WalkOk user t := by
  cases hs with
  | service hs => exact walkOk_of_service hsys hs hok
  | page _ hpage => exact walkOk_of_page hsys.1 hok hpage

/-- A walk as it is found after a run. -/
structure Underway (d : Deps) (user : Uuid) (s : Walk) : Prop where
  system : ∃ fs, ServiceRun d GeneratesIds fs s.system
  ok : WalkOk user s

theorem underway_of_run
    {G : Walk → WalkEvent → Prop} {s t : Walk} {es : List WalkEvent}
    (hpos : 1 ≤ limit)
    (hle : limit ≤ 100)
    (hG : ∀ u e, G u e → AnyWalk u e)
    (hs : Underway d user s)
    (hrun : Machine.Run (walkMachine d report user limit) G s es t) :
    Underway d user t := by
  refine Machine.run_invariant (I := Underway d user) ?_ hrun hs
  rintro u e v ⟨⟨fs, hfs⟩, hok⟩ hGe hstep
  have hsys := serviceOk_of_run hfs
  have hw := walkStep_of_step hpos hle hfs hok hstep
  refine ⟨?_, walkOk_of_step hsys hw hok⟩
  have hids := hG u e hGe
  cases hw with
  | service hs => exact ⟨_, Machine.Run.snoc hfs hids hs⟩
  | page => exact ⟨fs, hfs⟩

theorem underway_start
    (h₀ : ServiceRun d GeneratesIds es₀ s₀) :
    Underway d user (Walk.start s₀) :=
  ⟨⟨es₀, h₀⟩, walkOk_start (serviceOk_of_run h₀).1⟩

theorem anyWalk_of_cursorKept
    (s : Walk) (e : WalkEvent)
    (h : CursorKept user s e) :
    AnyWalk s e := by
  cases e with
  | service e => exact h
  | page => trivial

theorem covered_of_run
    {es : List WalkEvent} {s : Walk}
    (hpos : 1 ≤ limit)
    (hle : limit ≤ 100)
    (h₀ : ServiceRun d GeneratesIds es₀ s₀)
    (hrun : Machine.Run (walkMachine d report user limit) (CursorKept user)
      (Walk.start s₀) es s) :
    Covered user s := by
  refine Machine.run_invariant_of_known (K := Underway d user)
    (fun _ _ hu => underway_of_run hpos hle anyWalk_of_cursorKept (underway_start h₀) hu)
    ?_ hrun ?_
  · rintro u e v ⟨⟨fs, hfs⟩, hok⟩ _ hcov hkept hstep
    have hsys := serviceOk_of_run hfs
    cases walkStep_of_step hpos hle hfs hok hstep with
    | service hs => exact covered_of_service hsys hs hok hcov
    | page hnext hpage => exact covered_of_page hsys.1 hok hnext hkept hpage hcov
  · rintro r _ _ _ (hnone | ⟨v, hlast, _⟩)
    · cases hnone
    · cases hlast

theorem walksInOrder_of_underway
    {s : Walk}
    (hpos : 1 ≤ limit)
    (hle : limit ≤ 100)
    (hs : Underway d user s) :
    WalksInOrder d report user limit s where
  answered := by
    intro hnext
    obtain ⟨cursor, hcursor⟩ := Option.ne_none_iff_exists'.mp hnext
    obtain ⟨fs, hfs⟩ := hs.system
    obtain ⟨_, _, _, hstep⟩ :=
      step_page report hpos hle hfs hs.ok hcursor
    rw [hstep]
    rfl
  distinct := by
    refine List.pairwise_map.mpr (hs.ok.listed.decreasing.imp_of_mem ?_)
    intro a b ha hb hlt hid
    obtain ⟨i, p, hp, _, hpid, hpt⟩ := hs.ok.listed.known a ha
    obtain ⟨j, q, hq, _, hqid, hqt⟩ := hs.ok.listed.known b hb
    obtain ⟨fs, hfs⟩ := hs.system
    have heq := eq_of_uniqueKey (serviceOk_of_run hfs).1.bornUnique hp hq
      (hpid.trans (hid.trans hqid.symm))
    cases heq
    have hsame : b.position = a.position := by
      simp only [JobView.position, ← hpt, ← hqt, hid]
    exact absurd hsame (ne_of_lt hlt)
  decreasing := hs.ok.listed.decreasing

theorem listsAll_of_covered
    {s : Walk}
    (hdistinct : (s.listed.map JobView.id).Nodup)
    (hcov : Covered user s) :
    ListsAll user s := by
  intro hover r hr huser hrow
  exact List.count_eq_one_of_mem hdistinct (hcov r hr huser hrow (Or.inl hover))

end Runs

section Ending

variable {d : Deps} {report : Query → List Issue} {user : Uuid} {limit : Nat}

theorem finite_uuid : Finite Uuid := by
  have hchars : Finite Char := by
    refine Finite.of_injective (fun c : Char => c.val.toBitVec.toFin) ?_
    intro a b hab
    exact Char.ext (UInt32.toBitVec_inj.mp (BitVec.toFin_inj.mp hab))
  have hlists : Finite { l : List Char // l.length = 36 } := List.finite_length_eq Char 36
  refine Finite.of_injective
    (fun u : Uuid => (⟨u.text.toList, u.canonical.1⟩ : { l : List Char // l.length = 36 })) ?_
  intro a b hab
  exact Uuid.ext (String.toList_inj.mp (congrArg Subtype.val hab))

/-- There is no way down the history without an end: the timestamps are natural
numbers, and there are finitely many ids within each. -/
theorem wellFounded_position :
    WellFounded fun u v : JobView => u.position < v.position := by
  have hfinite := finite_uuid
  have htrans : IsTrans Uuid fun a b => a.text < b.text := ⟨fun _ _ _ hab hbc => hab.trans hbc⟩
  have hirrefl : Std.Irrefl fun a b : Uuid => a.text < b.text := ⟨fun a => lt_irrefl a.text⟩
  have hids : WellFounded fun a b : Uuid => a.text < b.text :=
    Finite.wellFounded_of_trans_of_irrefl _
  refine Subrelation.wf ?_
    (InvImage.wf (fun v : JobView => (v.createdAt, v.id)) (Nat.lt_wfRel.wf.prod_lex hids))
  intro u v huv
  exact Prod.lex_def.mpr (Prod.Lex.toLex_lt_toLex.mp huv)

/-- While only the service acts, the client waits. -/
theorem same_listed_of_run
    {s t : Walk} {fs : List ServiceEvent}
    (hrun : Machine.Run (walkMachine d report user limit) AnyWalk s (fs.map .service) t) :
    t.listed = s.listed ∧ t.next = s.next := by
  induction fs using List.reverseRecOn generalizing t with
  | nil =>
      cases Machine.run_nil hrun
      exact ⟨rfl, rfl⟩
  | append_singleton fs e ih =>
      rw [List.map_append] at hrun
      obtain ⟨u, hu, _, hs⟩ := Machine.run_concat hrun
      obtain ⟨v, _, rfl⟩ := Option.map_eq_some_iff.mp hs
      have hsame := ih hu
      exact hsame

/-- After a request that is not the last one, the last listed job stands below all
that were listed before. -/
theorem last_below_of_request
    {s t : Walk} {fs : List ServiceEvent}
    (hpos : 1 ≤ limit)
    (hle : limit ≤ 100)
    (hs : Underway d user s)
    (hrun : Machine.Run (walkMachine d report user limit) AnyWalk s
      (fs.map .service ++ [.page]) t)
    (hnext : t.next ≠ none) :
    ∃ v, t.listed.getLast? = some v ∧ ∀ u, u ∈ s.listed → v.position < u.position := by
  obtain ⟨u, hu, _, hstep⟩ := Machine.run_concat hrun
  obtain ⟨⟨gs, hgs⟩, hok⟩ := underway_of_run hpos hle (fun _ _ h => h) hs hu
  have hlisted := (same_listed_of_run hu).1
  cases walkStep_of_step hpos hle hgs hok hstep with
  | @page cursor nextCursor page hcursor hpage =>
      cases hc : nextCursor with
      | none =>
          rw [hc] at hnext
          exact absurd rfl hnext
      | some c =>
          obtain ⟨r, hlast, _⟩ := hpage.next c hc
          refine ⟨serializeJob r, getLast?_listed hlast, ?_⟩
          intro v hv
          exact hpage.below r v (List.mem_of_getLast? hlast) (hlisted ▸ hv)

/-- Nobody can ask for pages forever. -/
theorem no_endless_walk
    (hpos : 1 ≤ limit)
    (hle : limit ≤ 100)
    {walk : Nat → Walk}
    (h₀ : Underway d user (walk 0))
    (hrounds : ∀ n, ∃ fs : List ServiceEvent,
      Machine.Run (walkMachine d report user limit) AnyWalk (walk n)
        (fs.map .service ++ [.page]) (walk (n + 1))) :
    False := by
  have hunder : ∀ n, Underway d user (walk n) := by
    intro n
    induction n with
    | zero => exact h₀
    | succ n ih =>
        obtain ⟨fs, hfs⟩ := hrounds n
        exact underway_of_run hpos hle (fun _ _ h => h) ih hfs
  have hopen : ∀ n, (walk n).next ≠ none := by
    intro n hnone
    obtain ⟨fs, hfs⟩ := hrounds n
    obtain ⟨u, hu, _, hstep⟩ := Machine.run_concat hfs
    have hu' := (same_listed_of_run hu).2.trans hnone
    simp [walkMachine, Walk.step, hu'] at hstep
  have hlast : ∀ n, ∃ v, (walk (n + 1)).listed.getLast? = some v ∧
      ∀ u, u ∈ (walk n).listed → v.position < u.position := by
    intro n
    obtain ⟨fs, hfs⟩ := hrounds n
    exact last_below_of_request hpos hle (hunder n) hfs (hopen (n + 1))
  choose last hlast hbelow using hlast
  refine (wellFounded_iff_isEmpty_descending_chain.mp wellFounded_position).false ⟨last, ?_⟩
  intro n
  exact hbelow (n + 1) _ (List.mem_of_getLast? (hlast n))

end Ending

section Results

variable {d : Deps} {report : Query → List Issue} {user : Uuid} {limit : Nat}
  {s₀ : Service} {es₀ : List ServiceEvent}

/--
**Walking the history.**  For every user, every page size from 1 to 100 and every
state of the service in which the walk begins, whatever the service does between
the requests: every request is answered, no job is listed twice, and the jobs come
in strictly decreasing order of creation time and id; the walk ends; and if at
every request the row of the cursor is still there, or nothing from the start is
left below it, the walk lists every job of the user that was there all along.
-/
theorem history_walk
    (hpos : 1 ≤ limit)
    (hle : limit ≤ 100)
    (h₀ : ServiceRun d GeneratesIds es₀ s₀) :
    (∀ es s, Machine.Run (walkMachine d report user limit) AnyWalk (Walk.start s₀) es s →
      WalksInOrder d report user limit s) ∧
    (¬ ∃ walk : Nat → Walk, walk 0 = Walk.start s₀ ∧
      ∀ n, ∃ fs : List ServiceEvent,
        Machine.Run (walkMachine d report user limit) AnyWalk (walk n)
          (fs.map .service ++ [.page]) (walk (n + 1))) ∧
    (∀ es s, Machine.Run (walkMachine d report user limit) (CursorKept user)
      (Walk.start s₀) es s → ListsAll user s) := by
  have hunder : ∀ es s, Machine.Run (walkMachine d report user limit) AnyWalk
      (Walk.start s₀) es s → Underway d user s :=
    fun _ _ hrun => underway_of_run hpos hle (fun _ _ h => h) (underway_start h₀) hrun
  refine ⟨?_, ?_, ?_⟩
  · intro es s hrun
    exact walksInOrder_of_underway hpos hle (hunder es s hrun)
  · rintro ⟨walk, hstart, hrounds⟩
    exact no_endless_walk hpos hle (hstart ▸ underway_start h₀) hrounds
  · intro es s hrun
    have hany := Machine.run_weaken anyWalk_of_cursorKept hrun
    have horder : WalksInOrder d report user limit s :=
      walksInOrder_of_underway hpos hle (hunder es s hany)
    exact listsAll_of_covered horder.distinct (covered_of_run hpos hle h₀ hrun)

/-- An older job and a newer one that is not enqueued yet, with equal times. -/
def twoSubmissions : List ServiceEvent :=
  sampleSubmission none :: sampleSubmission none ::
    (handlerEvents 0 (insertEvents sampleJob ++ enqueueEvents) ++
      handlerEvents 1 (insertEvents otherJob ++ [.callAdd]))

def generatesIds (_ : Service) : ServiceEvent → Bool
  | .act _ (.handler (.create id _)) => decide (uuid? id.text = some id)
  | _ => true

theorem generatesIds_of_check
    (s : Service) (e : ServiceEvent)
    (h : generatesIds s e = true) :
    GeneratesIds s e := by
  unfold generatesIds at h
  unfold GeneratesIds
  split at h
  · exact of_decide_eq_true h
  · trivial

/-- The row of the cursor is in the table. -/
def cursorThere (s : Walk) : WalkEvent → Bool
  | .service e => generatesIds s.system e
  | .page =>
      match s.next with
      | some (some c) => s.system.world.jobs.any fun r => decide (r.id = c)
      | _ => true

theorem cursorKept_of_cursorThere
    (s : Walk) (e : WalkEvent)
    (h : cursorThere s e = true) :
    CursorKept user s e := by
  cases e with
  | service e => exact generatesIds_of_check s.system e h
  | page =>
      intro c v hnext _
      simp only [cursorThere, hnext] at h
      obtain ⟨r, hr, hid⟩ := List.any_eq_true.mp h
      exact Or.inl ⟨r, hr, of_decide_eq_true hid⟩

/-- A client that asks for one job at a time gets both. -/
theorem history_walk_two :
    ∃ (s₀ : Service) (es : List WalkEvent) (s : Walk),
      ServiceRun sampleDeps GeneratesIds twoSubmissions s₀ ∧
        Machine.Run (walkMachine sampleDeps (fun _ => []) sampleUser 1)
            (CursorKept sampleUser) (Walk.start s₀) es s ∧
          s.next = none ∧ s.listed.map JobView.id = [otherJob, sampleJob] ∧
            ListsAll sampleUser s := by
  have hexec : ((service sampleDeps).machine.exec generatesIds Service.initial
      twoSubmissions).any (fun s₀ =>
        ((walkMachine sampleDeps (fun _ => []) sampleUser 1).exec cursorThere (Walk.start s₀)
          (.page :: ((handlerEvents 1 [.addTakesEffect, .addReturns, .accept]).map .service ++
            [.page]))).any
          fun s => decide (s.next = none ∧
            s.listed.map JobView.id = [otherJob, sampleJob])) = true := by
    decide +kernel
  obtain ⟨s₀, h₀, hwalk⟩ := Machine.exists_run_of_exec generatesIds_of_check hexec
  obtain ⟨s, hrun, hs⟩ := Machine.exists_run_of_exec cursorKept_of_cursorThere hwalk
  obtain ⟨hnext, hlisted⟩ := of_decide_eq_true hs
  exact ⟨s₀, _, s, h₀, hrun, hnext, hlisted,
    (history_walk (by decide) (by decide) h₀).2.2 _ s hrun⟩

/-- A check of `AnyWalk`. -/
def anyWalk (s : Walk) : WalkEvent → Bool
  | .service e => generatesIds s.system e
  | .page => true

theorem anyWalk_of_check
    (s : Walk) (e : WalkEvent)
    (h : anyWalk s e = true) :
    AnyWalk s e := by
  cases e with
  | service e => exact generatesIds_of_check s.system e h
  | page => trivial

/-- The newer job fails to enqueue after the first page, and its row is deleted;
the walk that had reached it ends without the older job. -/
theorem older_job_missed :
    ∃ (es₀ : List ServiceEvent) (s₀ : Service) (es : List WalkEvent) (s : Walk) (r : Job),
      ServiceRun sampleDeps GeneratesIds es₀ s₀ ∧
        Machine.Run (walkMachine sampleDeps (fun _ => []) sampleUser 1) AnyWalk
          (Walk.start s₀) es s ∧
          r ∈ s₀.world.jobs ∧ r.userId = sampleUser ∧ r ∈ s.system.world.jobs ∧
            s.next = none ∧ s.listed.map JobView.id = [otherJob] ∧
              ¬ ListsAll sampleUser s := by
  have hexec : ((service sampleDeps).machine.exec generatesIds Service.initial
      twoSubmissions).any (fun s₀ =>
        ((walkMachine sampleDeps (fun _ => []) sampleUser 1).exec anyWalk (Walk.start s₀)
          (.page :: ((handlerEvents 1 [.addRaises, .deleteRow]).map .service ++ [.page]))).any
          fun s => decide (s.next = none ∧ s.listed.map JobView.id = [otherJob] ∧
            s.atStart = s₀.world.jobs ∧
            ∃ r, r ∈ s.atStart ∧ r.id = sampleJob ∧ r.userId = sampleUser ∧
              r ∈ s.system.world.jobs)) = true := by
    decide +kernel
  obtain ⟨s₀, h₀, hwalk⟩ := Machine.exists_run_of_exec generatesIds_of_check hexec
  obtain ⟨s, hrun, hs⟩ := Machine.exists_run_of_exec anyWalk_of_check hwalk
  obtain ⟨hnext, hlisted, hstart, r, hr, hid, huser, hrow⟩ := of_decide_eq_true hs
  refine ⟨_, s₀, _, s, r, h₀, hrun, hstart ▸ hr, huser, hrow, hnext, hlisted, ?_⟩
  intro hall
  have hcount := hall hnext r hr huser ⟨r, hrow, rfl⟩
  rw [hlisted, hid] at hcount
  exact absurd hcount (by decide)

end Results

end BengaliTts
