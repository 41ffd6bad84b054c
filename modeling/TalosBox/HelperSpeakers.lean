import Mathlib

/-! The helper's BGP speakers: the table that names a cluster's speaker, and those that run. -/
namespace TalosBox.HelperSpeakers

open Function (update update_of_ne update_self)

structure BgpArgs where
  cluster : String
  subnetIndex : Option ℤ
  localASN : UInt32
  peerASN : UInt32
  deriving DecidableEq

/-- Where `StartSpeaker` gives up; it stops its server then. -/
inductive StartFailure
  | startBgp
  | addPeerGroup
  | addDynamicNeighbor
  deriving DecidableEq

inductive BgpError
  | decode
  | clusterRequired
  | subnetIndexRequired
  | subnetIndexOutside (index : ℤ)
  | zeroASN
  | start (cluster : String) (failure : StartFailure)
  deriving DecidableEq

def validateBGPCluster (cluster : String) : Option BgpError :=
  if cluster = "" then some .clusterRequired else none

/-- The subnet index of arguments that are accepted. -/
def validateBGPEnableArgs (args : BgpArgs) : Except BgpError ℤ :=
  match validateBGPCluster args.cluster with
  | some e => .error e
  | none =>
    match args.subnetIndex with
    | none => .error .subnetIndexRequired
    | some index =>
      if index < 0 ∨ 255 < index then .error (.subnetIndexOutside index)
      else if args.localASN = 0 ∨ args.peerASN = 0 then .error .zeroASN
      else .ok index

/-- What a speaker is started with. -/
structure SpeakerArgs where
  localASN : UInt32
  peerASN : UInt32
  gatewayIP : String
  peerCIDR : String
  deriving DecidableEq

def speakerArgs (args : BgpArgs) (subnetIndex : ℤ) : SpeakerArgs where
  localASN := args.localASN
  peerASN := args.peerASN
  gatewayIP := "172.30." ++ toString subnetIndex ++ ".1"
  peerCIDR := "172.30." ++ toString subnetIndex ++ ".0/24"

structure Server where
  /-- The table, by cluster alone. -/
  speakers : String → Option ℕ
  /-- The speakers that run, with the cluster each was started for. -/
  running : ℕ → Option (String × SpeakerArgs)
  started : ℕ

namespace Server

def initial : Server := ⟨fun _ => none,fun _ => none,0⟩

/-- `speaker.Stop()` and the deletion of its entry. -/
def stopSpeaker (s : Server) (cluster : String) (speaker : ℕ) : Server :=
  { s with
    running := update s.running speaker none
    speakers := update s.speakers cluster none }

def startSpeaker (s : Server) (cluster : String) (args : SpeakerArgs) : Server where
  speakers := update s.speakers cluster (some s.started)
  running := update s.running s.started (some (cluster,args))
  started := s.started + 1

def enableBGP (s : Server) (raw : Option BgpArgs) (start : Option StartFailure) :
    Server × Option BgpError :=
  match raw with
  | none => (s,some .decode)
  | some args =>
    match validateBGPEnableArgs args with
    | .error e => (s,some e)
    | .ok subnetIndex =>
      if (s.speakers args.cluster).isSome then (s,none)
      else
        match start with
        | some failure => (s,some (.start args.cluster failure))
        | none => (s.startSpeaker args.cluster (speakerArgs args subnetIndex),none)

def disableBGP (s : Server) (raw : Option BgpArgs) : Server × Option BgpError :=
  match raw with
  | none => (s,some .decode)
  | some args =>
    match validateBGPCluster args.cluster with
    | some e => (s,some e)
    | none =>
      match s.speakers args.cluster with
      | none => (s,none)
      | some speaker => (s.stopSpeaker args.cluster speaker,none)

end Server

/-- The arguments as they are decoded, if they are, and how a start goes if it is tried. -/
inductive Call
  | enable (raw : Option BgpArgs) (start : Option StartFailure)
  | disable (raw : Option BgpArgs)

def Server.answer (s : Server) : Call → Server × Option BgpError
  | .enable raw start => s.enableBGP raw start
  | .disable raw => s.disableBGP raw

def run (calls : List Call) : Server := calls.foldl (fun s call => (s.answer call).1) .initial

/-- The table names exactly the speakers that run. -/
structure Registered (s : Server) : Prop where
  listed : ∀ cluster speaker,
    s.speakers cluster = some speaker ↔ ∃ args, s.running speaker = some (cluster,args)
  unborn : ∀ speaker, s.started ≤ speaker → s.running speaker = none

lemma registered_initial : Registered .initial where
  listed cluster speaker := by simp [Server.initial]
  unborn _ _ := rfl

variable {s : Server} {cluster : String}

theorem Registered.stopSpeaker (h : Registered s) {speaker : ℕ}
    (hli : s.speakers cluster = some speaker) : Registered (s.stopSpeaker cluster speaker) where
  listed other id := by
    by_cases hoth : other = cluster
    · subst hoth
      simp only [Server.stopSpeaker,update_self]
      refine iff_of_false nofun ?_
      rintro ⟨args,hargs⟩
      by_cases hid : id = speaker
      · simp [hid] at hargs
      · rw [update_of_ne hid] at hargs
        exact hid (Option.some.inj (((h.listed other id).2 ⟨args,hargs⟩).symm.trans hli))
    · simp only [Server.stopSpeaker,update_of_ne hoth]
      rw [h.listed]
      by_cases hid : id = speaker
      · -- The speaker that stops is of the other cluster.
        subst hid
        obtain ⟨args,hargs⟩ := (h.listed cluster id).1 hli
        refine iff_of_false ?_ (by simp)
        rintro ⟨args',hargs'⟩
        exact hoth (Prod.mk.inj (Option.some.inj (hargs'.symm.trans hargs))).1
      · simp [hid]
  unborn id hid := by
    by_cases hspea : id = speaker
    · simp [Server.stopSpeaker,hspea]
    · simpa [Server.stopSpeaker,hspea] using h.unborn id hid

theorem Registered.startSpeaker (h : Registered s)
    (hno : s.speakers cluster = none) (args : SpeakerArgs) :
    Registered (s.startSpeaker cluster args) where
  listed other id := by
    by_cases hid : id = s.started
    · subst hid
      have hfr : ∀ c, s.speakers c ≠ some s.started := by
        intro c hc
        obtain ⟨a,ha⟩ := (h.listed c _).1 hc
        simp [h.unborn _ le_rfl] at ha
      by_cases hoth : other = cluster
      · simp [Server.startSpeaker,hoth]
      · simp [Server.startSpeaker,hoth,hfr other,Ne.symm hoth]
    · by_cases hoth : other = cluster
      · subst hoth
        simp only [Server.startSpeaker,update_self,update_of_ne hid,
          Option.some.injEq]
        refine iff_of_false (Ne.symm hid) ?_
        rintro ⟨a,ha⟩
        exact nomatch hno.symm.trans ((h.listed other id).2 ⟨a,ha⟩)
      · simpa [Server.startSpeaker,hid,hoth] using h.listed other id
  unborn id hid := by
    have hne : id ≠ s.started := by
      rintro rfl
      exact absurd hid (Nat.not_succ_le_self _)
    simpa [Server.startSpeaker,hne] using h.unborn id ((Nat.le_succ _).trans hid)

theorem Registered.answer (h : Registered s) (call : Call) :
    Registered (s.answer call).1 := by
  cases call with
  | enable raw start =>
    simp only [Server.answer,Server.enableBGP]
    split
    · exact h
    · split
      · exact h
      · split_ifs with hli
        · exact h
        · split
          · exact h
          · exact h.startSpeaker (Option.not_isSome_iff_eq_none.1 hli) _
  | disable raw =>
    simp only [Server.answer,Server.disableBGP]
    split
    · exact h
    · split
      · exact h
      · split
        · exact h
        · rename_i hli
          exact h.stopSpeaker hli

theorem registered_run (calls : List Call) : Registered (run calls) := by
  induction calls using List.reverseRecOn with
  | nil => exact registered_initial
  | append_singleton calls call ih =>
    rw [run,List.foldl_append]
    exact ih.answer call

/-- One speaker of the cluster runs, and was started with the arguments. -/
def Server.RunsWith (s : Server) (cluster : String) (args : SpeakerArgs) : Prop :=
  ∃ speaker, s.running speaker = some (cluster,args) ∧
    ∀ other args', s.running other = some (cluster,args') → other = speaker

def Server.Silent (s : Server) (cluster : String) : Prop :=
  ∀ speaker args, s.running speaker ≠ some (cluster,args)

theorem Registered.runsWith_iff (h : Registered s)
    {speaker : ℕ} (hli : s.speakers cluster = some speaker) (args : SpeakerArgs) :
    s.RunsWith cluster args ↔
      ∀ other args', s.running other = some (cluster,args') → args' = args := by
  have hunique : ∀ other args', s.running other = some (cluster,args') → other = speaker :=
    fun other args' hoth =>
      Option.some.inj (((h.listed cluster other).2 ⟨args',hoth⟩).symm.trans hli)
  constructor
  · rintro ⟨one,hone,-⟩ other args' hoth
    have hsm := (hunique other args' hoth).trans (hunique one args hone).symm
    rw [hsm,hone] at hoth
    exact (Prod.mk.inj (Option.some.inj hoth)).2.symm
  · intro hall
    obtain ⟨args',hargs'⟩ := (h.listed cluster speaker).1 hli
    obtain rfl := hall speaker args' hargs'
    exact ⟨speaker,hargs',hunique⟩

theorem validateBGPEnableArgs_ok {args : BgpArgs} {subnetIndex : ℤ}
    (h : validateBGPEnableArgs args = .ok subnetIndex) : args.subnetIndex = some subnetIndex := by
  unfold validateBGPEnableArgs at h
  split at h
  · cases h
  · split at h
    · cases h
    · rename_i index hidx
      split_ifs at h
      cases h
      exact hidx

/-- A call that succeeds finds a speaker listed and leaves it, or starts one. -/
theorem enableBGP_success {s' : Server} {args : BgpArgs} {start : Option StartFailure}
    (h : s.enableBGP (some args) start = (s',none)) : ∃ subnetIndex,
      args.subnetIndex = some subnetIndex ∧
        ((∃ speaker, s.speakers args.cluster = some speaker) ∧ s' = s ∨
          s.speakers args.cluster = none ∧
            s' = s.startSpeaker args.cluster (speakerArgs args subnetIndex)) := by
  simp only [Server.enableBGP] at h
  split at h
  · simp at h
  · rename_i subnetIndex hval
    refine ⟨subnetIndex,validateBGPEnableArgs_ok hval,?_⟩
    split_ifs at h with hli
    · obtain ⟨rfl,-⟩ := Prod.mk.inj h
      exact .inl ⟨Option.isSome_iff_exists.1 hli,rfl⟩
    · split at h
      · simp at h
      · obtain ⟨rfl,-⟩ := Prod.mk.inj h
        exact .inr ⟨Option.not_isSome_iff_eq_none.1 hli,rfl⟩

theorem disableBGP_success {s' : Server} {args : BgpArgs}
    (h : s.disableBGP (some args) = (s',none)) : s'.speakers args.cluster = none := by
  simp only [Server.disableBGP] at h
  split at h
  · simp at h
  · split at h
    · rename_i hno
      obtain ⟨rfl,-⟩ := Prod.mk.inj h
      exact hno
    · obtain ⟨rfl,-⟩ := Prod.mk.inj h
      simp [Server.stopSpeaker]

theorem Registered.silent (h : Registered s)
    (hno : s.speakers cluster = none) : s.Silent cluster := by
  intro speaker args hrn
  exact nomatch hno.symm.trans ((h.listed _ speaker).2 ⟨args,hrn⟩)

theorem Registered.runsWith_startSpeaker (h : Registered s)
    (hno : s.speakers cluster = none) (args : SpeakerArgs) :
    (s.startSpeaker cluster args).RunsWith cluster args := by
  have hli : (s.startSpeaker cluster args).speakers cluster = some s.started := by
    simp [Server.startSpeaker]
  have hstd := h.startSpeaker hno args
  refine (hstd.runsWith_iff hli args).2 fun other args' hoth => ?_
  obtain rfl : other = s.started :=
    Option.some.inj (((hstd.listed cluster other).2 ⟨args',hoth⟩).symm.trans hli)
  simpa [Server.startSpeaker,eq_comm] using hoth

/-- An `enableBGP` that succeeds leaves one speaker with its arguments exactly if none was running
with other ones, since a listed one is kept. A `disableBGP` that succeeds leaves none. -/
theorem enabled_speaker_arguments_iff (calls : List Call) :
    (∀ args start s', (run calls).enableBGP (some args) start = (s',none) →
      ∃ subnetIndex, args.subnetIndex = some subnetIndex ∧
        (s'.RunsWith args.cluster (speakerArgs args subnetIndex) ↔
          ∀ speaker before, (run calls).running speaker = some (args.cluster,before) →
            before = speakerArgs args subnetIndex)) ∧
      ∀ args s', (run calls).disableBGP (some args) = (s',none) → s'.Silent args.cluster := by
  have h := registered_run calls
  refine ⟨fun args start s' henable => ?_,fun args s' hdisa => ?_⟩
  · obtain ⟨subnetIndex,hidx,⟨⟨speaker,hlstd⟩,rfl⟩ | ⟨hnone,rfl⟩⟩ := enableBGP_success henable
    · exact ⟨subnetIndex,hidx,h.runsWith_iff hlstd _⟩
    · refine ⟨subnetIndex,hidx,iff_of_true (h.runsWith_startSpeaker hnone _) ?_⟩
      exact fun speaker before hbef => absurd hbef (h.silent hnone speaker before)
  · have h' := h.answer (.disable (some args))
    rw [Server.answer,hdisa] at h'
    exact h'.silent (disableBGP_success hdisa)

def onSubnet (index : ℤ) : BgpArgs := ⟨"a",some index,64512,64513⟩

/-- A cluster that is enabled, disabled and enabled on another subnet. -/
theorem enabled_again_after_disable : ∃ s', (run [.enable (some (onSubnet 1)) none,
    .disable (some (onSubnet 1))]).enableBGP (some (onSubnet 2)) none = (s',none) ∧
      s'.RunsWith "a" (speakerArgs (onSubnet 2) 2) := by
  have hfree : (run [.enable (some (onSubnet 1)) none,.disable (some (onSubnet 1))]).speakers "a" =
      none := by
    decide +kernel
  have henable : ((run [.enable (some (onSubnet 1)) none,
      .disable (some (onSubnet 1))]).enableBGP (some (onSubnet 2)) none).2 = none := by
    decide +kernel
  obtain ⟨subnetIndex,hidx,hiff⟩ := (enabled_speaker_arguments_iff _).1 (onSubnet 2) none _
    (Prod.ext rfl henable)
  obtain rfl : 2 = subnetIndex := Option.some.inj hidx
  refine ⟨_,Prod.ext rfl henable,hiff.mpr fun speaker before hbef => ?_⟩
  exact absurd hbef ((registered_run _).silent hfree speaker before)

/-- Enabled on another subnet without a disable, the cluster keeps the speaker it has. -/
theorem enabled_speaker_keeps_old_subnet :
    ((run [.enable (some (onSubnet 1)) none]).enableBGP (some (onSubnet 2)) none).2 = none ∧
      ((run [.enable (some (onSubnet 1)) none]).enableBGP (some (onSubnet 2)) none).1.running 0 =
        some ("a",⟨64512,64513,"172.30.1.1","172.30.1.0/24"⟩) ∧
      ¬ ((run [.enable (some (onSubnet 1)) none]).enableBGP (some (onSubnet 2)) none).1.RunsWith "a"
        (speakerArgs (onSubnet 2) 2) := by
  have hrunn : ((run [.enable (some (onSubnet 1)) none]).enableBGP (some (onSubnet 2))
      none).1.running 0 = some ("a",⟨64512,64513,"172.30.1.1","172.30.1.0/24"⟩) := by
    decide +kernel
  refine ⟨by decide +kernel,hrunn,?_⟩
  rintro ⟨speaker,hspea,honly⟩
  obtain rfl := honly 0 _ hrunn
  exact absurd hspea (by decide +kernel)

end TalosBox.HelperSpeakers
