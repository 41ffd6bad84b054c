import TalosBox.RouteSpeaker

/-! Stopping a speaker while it reconciles. A pass reads the routes and reconciles them in two
steps, passes run beside each other, and nothing joins them when the speaker is stopped. -/
namespace TalosBox.Routes

open Function (update)
open MapLoops

inductive Thread
  | ticker
  | callback
  deriving DecidableEq

/-- How far `Stop` has come. -/
inductive Stage
  | serving
  | serverStopped
  | cancelled
  | stopped
  deriving DecidableEq

structure Speaker where
  stage : Stage
  reconciler : Reconciler
  /-- The routes a pass has read and not reconciled yet. -/
  routes : Thread → Option (List Route)

def newSpeaker : Speaker := ⟨.serving,newReconciler,fun _ => none⟩

/-- The table takes every write. -/
def granted : Answers Unit := ⟨fun _ => none,fun _ => none⟩

inductive Move
  | read (t : Thread) (rib : RIB)
  | reconcile (t : Thread) (order : Order String)
  | stopServer
  | cancel
  | withdrawAll (order : Order String)

namespace Speaker

/-- Once the server has stopped no callback begins and the table reads as empty; the ticker may win
its race. -/
def step (s : Speaker) : Move → Option Speaker
  | .read t rib =>
    match s.routes t, s.stage, t with
    | some _, _, _ => none
    | none, .serving, t => some { s with routes := update s.routes t (some (currentRoutes rib)) }
    | none, _, .ticker => some { s with routes := update s.routes .ticker (some []) }
    | none, _, .callback => none
  | .reconcile t order =>
    match s.routes t with
    | none => none
    | some routes => some { s with
        reconciler := (s.reconciler.reconcile granted order routes).1
        routes := update s.routes t none }
  | .stopServer => if s.stage = .serving then some { s with stage := .serverStopped } else none
  | .cancel => if s.stage = .serverStopped then some { s with stage := .cancelled } else none
  | .withdrawAll order =>
    if s.stage = .cancelled then
      some { s with stage := .stopped,reconciler := s.reconciler.withdrawAll granted order }
    else none

def run (s : Speaker) : List Move → Option Speaker
  | [] => some s
  | move::moves => (s.step move).bind fun s => s.run moves

end Speaker

theorem Reconciler.Recorded.granted {r : Reconciler} (h : r.Recorded) (c : Call Unit)
    (hc : ∃ order, (∃ desired, c = .reconcile granted order desired) ∨ c = .withdrawAll granted order) :
    (Routes.step r c).1.Recorded := by
  refine ((tracks_iff h c).2 ?_).recorded
  rcases hc with ⟨order,⟨desired,rfl⟩ | rfl⟩
  · exact fun pfx nexthop _ => .inr (.inl rfl)
  · exact fun pfx nexthop _ => rfl

namespace Speaker

/-- No route of the speaker's is in the table. -/
def Clean (s : Speaker) : Prop := s.reconciler.fib.routes = ∅

theorem clean_iff {s : Speaker} (h : s.reconciler.Recorded) :
    s.Clean ↔ ∀ pfx, s.reconciler.view pfx = (none,none) := by
  constructor
  · intro hcln pfx
    have htab : s.reconciler.fib.routes.lookup pfx = none := by rw [hcln,Finmap.lookup_empty]
    have hag := s.reconciler.recorded_iff.1 h pfx
    exact Prod.ext (hag.trans htab) htab
  · intro hvw
    refine Finmap.ext_lookup fun pfx => ?_
    exact congrArg Prod.snd (hvw pfx)

theorem step_cases {s s' : Speaker} {move : Move} (h : s.step move = some s') :
    (s'.reconciler = s.reconciler ∧ (s'.stage = .stopped → s.stage = .stopped)) ∨
    (∃ t order routes, move = .reconcile t order ∧ s.routes t = some routes ∧ s'.stage = s.stage ∧
      s'.reconciler = (s.reconciler.reconcile granted order routes).1) ∨
    ∃ order, s'.reconciler = s.reconciler.withdrawAll granted order := by
  cases move with
  | read t rib =>
    left
    simp only [step] at h
    split at h
    · cases h
    · cases h
      exact ⟨rfl,id⟩
    · cases h
      exact ⟨rfl,id⟩
    · cases h
  | reconcile t order =>
    simp only [step] at h
    cases hrts : s.routes t with
    | none => simp [hrts] at h
    | some routes =>
      rw [hrts] at h
      cases h
      exact .inr (.inl ⟨t,order,routes,rfl,hrts,rfl,rfl⟩)
  | stopServer =>
    simp only [step] at h
    split_ifs at h
    cases h
    exact .inl ⟨rfl,by simp⟩
  | cancel =>
    simp only [step] at h
    split_ifs at h
    cases h
    exact .inl ⟨rfl,by simp⟩
  | withdrawAll order =>
    simp only [step] at h
    split_ifs at h
    cases h
    exact .inr (.inr ⟨order,rfl⟩)

theorem step_recorded {s s' : Speaker} {move : Move} (h : s.step move = some s')
    (hr : s.reconciler.Recorded) : s'.reconciler.Recorded := by
  obtain ⟨heq,-⟩ | ⟨t,order,routes,-,-,-,heq⟩ | ⟨order,heq⟩ := step_cases h
  · rwa [heq]
  · rw [heq]
    exact hr.granted (.reconcile granted order routes) ⟨order,.inl ⟨routes,rfl⟩⟩
  · rw [heq]
    exact hr.granted (.withdrawAll granted order) ⟨order,.inr rfl⟩

/-- A pass over what it read leaves the table clean exactly if it read nothing. -/
theorem reconcile_clean_iff {s : Speaker} (hr : s.reconciler.Recorded) (hcln : s.Clean)
    (order : Order String) (routes : List Route) :
    (s.reconciler.reconcile granted order routes).1.fib.routes = ∅ ↔ routes = [] := by
  have hvw := (clean_iff hr).1 hcln
  constructor
  · intro hemp
    cases hrts : routes with
    | nil => rfl
    | cons route rest =>
      obtain ⟨nexthop,hla⟩ : ∃ nexthop, lastNexthop routes route.pfx = some nexthop := by
        have hfnd : (routes.reverse.find? fun r => r.pfx = route.pfx).isSome := by
          rw [List.find?_isSome]
          exact ⟨route,by simp [hrts],by simp⟩
        obtain ⟨found,hfi⟩ := Option.isSome_iff_exists.1 hfnd
        exact ⟨found.nexthop,by simp [lastNexthop,hfi]⟩
      have haft := Reconciler.reconcile_view granted s.reconciler order routes route.pfx
      rw [hvw,lookup_want,hla,Reconciler.settled_some] at haft
      have htab : (s.reconciler.reconcile granted order routes).1.fib.routes.lookup route.pfx =
          some nexthop := congrArg Prod.snd haft
      rw [hemp,Finmap.lookup_empty] at htab
      cases htab
  · rintro rfl
    refine Finmap.ext_lookup fun pfx => ?_
    have haft := Reconciler.reconcile_view granted s.reconciler order [] pfx
    rw [hvw,lookup_want] at haft
    exact congrArg Prod.snd haft

theorem withdrawAll_clean {s : Speaker} (hr : s.reconciler.Recorded) (order : Order String) :
    (s.reconciler.withdrawAll granted order).fib.routes = ∅ := by
  refine Finmap.ext_lookup fun pfx => ?_
  have haft := congrArg Prod.snd (Reconciler.withdrawAll_view granted s.reconciler order pfx)
  refine haft.trans ?_
  rw [hr.view_eq]
  exact Reconciler.cleared_agrees.2 fun _ _ => rfl

theorem run_append (s : Speaker) (before after : List Move) :
    s.run (before++after) = (s.run before).bind fun s => s.run after := by
  induction before generalizing s with
  | nil => rfl
  | cons move before ih =>
    rw [List.cons_append,run,run]
    cases s.step move with
    | none => rfl
    | some s' => exact ih s'

theorem run_recorded {s : Speaker} {moves : List Move} (h : newSpeaker.run moves = some s) :
    s.reconciler.Recorded := by
  induction moves using List.reverseRecOn generalizing s with
  | nil =>
    cases h
    exact fun pfx nexthop => Iff.rfl
  | append_singleton moves move ih =>
    rw [run_append,Option.bind_eq_some_iff] at h
    obtain ⟨s',hs',hst⟩ := h
    obtain ⟨s'',hmove,hs''⟩ := Option.bind_eq_some_iff.1 hst
    cases hs''
    exact step_recorded hmove (ih hs')

end Speaker

/-- From the moment `Stop` returns the table holds no route of the speaker's, if and only if no pass
that has read a route reconciles it after that. -/
theorem stopped_speaker_clean_iff (moves : List Move) :
    (∀ before after s, moves = before ++ after → newSpeaker.run before = some s → s.stage = .stopped →
      s.reconciler.fib.routes = ∅) ↔
    ∀ before t order after s routes, moves = before ++ .reconcile t order :: after →
      newSpeaker.run before = some s → s.stage = .stopped → s.routes t = some routes → routes = [] := by
  constructor
  · intro h before t order after s routes hmoves hrun hstg hrts
    have hcln : s.Clean := h before _ s hmoves hrun hstg
    refine (Speaker.reconcile_clean_iff (Speaker.run_recorded hrun) hcln order routes).mp ?_
    have hnext : newSpeaker.run (before ++ [.reconcile t order]) = some { s with
        reconciler := (s.reconciler.reconcile granted order routes).1
        routes := update s.routes t none } := by
      rw [Speaker.run_append,hrun]
      simp [Speaker.run,Speaker.step,hrts]
    have haft := h (before ++ [.reconcile t order]) after _ (by simp [hmoves]) hnext
    exact haft hstg
  · intro h before
    -- by induction on the moves so far; only a pass that read nothing comes after the withdrawal
    induction before using List.reverseRecOn with
    | nil =>
      intro after s _ hrun hstg
      cases hrun
      cases hstg
    | append_singleton before move ih =>
      intro after s hmoves hrun hstg
      rw [Speaker.run_append,Option.bind_eq_some_iff] at hrun
      obtain ⟨s',hs',hstep⟩ := hrun
      obtain ⟨s'',hmove,hs''⟩ := Option.bind_eq_some_iff.mp hstep
      cases hs''
      have hmoves' : moves = before ++ move :: after := by simpa using hmoves
      obtain ⟨heq,hstg'⟩ | ⟨t,order,routes,rfl,hrts,hstg',heq⟩ | ⟨order,heq⟩ := Speaker.step_cases hmove
      · rw [heq]
        exact ih _ s' hmoves' hs' (hstg' hstg)
      · rw [hstg'] at hstg
        rw [heq]
        have hemp := h before t order after s' routes hmoves' hs' hstg hrts
        exact (Speaker.reconcile_clean_iff (Speaker.run_recorded hs') (ih _ s' hmoves' hs' hstg) order
          routes).mpr hemp
      · rw [heq]
        exact Speaker.withdrawAll_clean (Speaker.run_recorded hs') order

namespace Sample

def advertised : Destination := ⟨vip,[⟨false,[.nextHop "172.30.0.2"]⟩]⟩

/-- The callback has read the advertised route when `Stop` runs from end to end. -/
def stopWithin : List Move :=
  [.read .callback ⟨[advertised],by decide⟩,.stopServer,.cancel,.withdrawAll sorted]

def stoppedWithin : Speaker :=
  ⟨.stopped,newReconciler.withdrawAll granted sorted,
    update (fun _ => none) .callback (some [⟨vip,"172.30.0.2"⟩])⟩

lemma stopWithin_run : newSpeaker.run stopWithin = some stoppedWithin := rfl

end Sample

/-- `Stop` has returned with the table empty; then the pass goes on and adds its route. -/
theorem late_pass_reinjects_route : ∃ s,
    newSpeaker.run (Sample.stopWithin ++ [.reconcile .callback Sample.sorted]) = some s ∧
    s.stage = .stopped ∧ s.reconciler.fib.routes.lookup Sample.vip = some "172.30.0.2" := by
  refine ⟨{ Sample.stoppedWithin with
    reconciler := (Sample.stoppedWithin.reconciler.reconcile granted Sample.sorted [⟨Sample.vip,"172.30.0.2"⟩]).1
    routes := update Sample.stoppedWithin.routes .callback none },?_,rfl,?_⟩
  · rw [Speaker.run_append,Sample.stopWithin_run]
    rfl
  · have hview := Reconciler.reconcile_view granted Sample.stoppedWithin.reconciler Sample.sorted
      [⟨Sample.vip,"172.30.0.2"⟩] Sample.vip
    exact congrArg Prod.snd hview

end TalosBox.Routes
