import TalosBox.UpstreamRetry
import TalosBox.AuthChallenge

/-! One fill from a registry: requests, waits and token exchanges, whose requests are repeated under
the same policy as the attempts. -/
namespace TalosBox.Registry

open LastSplit List
open Mirror (Text manifestPathRe)

/-- The submatch of `blobScopeRe`: it lies in the first line, and anything may follow. -/
def blobScopeRe (path : Text) : Option Text :=
  if "/v2/".toList <+: path then
    match splitLast "/blobs/".toList ((path.drop 4).takeWhile (· ≠ '\n')++['\n']) with
    | some (repository,_) => if repository ≠ [] then some repository else none
    | none => none
  else none

def pullScope (repository : Text) : Text := "repository:".toList++repository ++ ":pull".toList

def scopeOf (path : Text) : Text :=
  match manifestPathRe path with
  | some (repository,_) => pullScope repository
  | none => ((blobScopeRe path).map pullScope).getD []

structure TokenPayload where
  token : Text
  accessToken : Text
  expiresIn : ℤ

/-- The status, the headers that are read, and the body as a token, if it is one. -/
structure UpstreamResponse where
  status : ℕ
  retryAfter : Text
  authenticate : List Text
  payload : Option TokenPayload

inductive Endpoint
  | registry
  | token
  deriving DecidableEq

/-- A request that was sent, without a bearer if it is empty, and its answer, if there was one. -/
structure Exchange where
  endpoint : Endpoint
  url : Text
  bearer : Text
  answer : Option UpstreamResponse

structure CachedToken where
  value : Text
  expires : ℤ

structure UpstreamState where
  tokens : Text → Option CachedToken
  exchanges : List Exchange
  /-- The delays slept, each with the endpoint that asked for it. -/
  slept : List (Endpoint × ℤ)
  /-- How often the clock was read. -/
  reads : ℕ

/-- The answers to each request, the clock, which sleeps the context ends, and the library's
readings of dates and realms. -/
structure Upstream where
  answers : ℕ → Option UpstreamResponse
  clock : ℕ → ℤ
  interrupted : ℕ → Bool
  parseTime : Text → Option ℤ
  tokenURL : Text → Text → Text → Option Text

inductive UpstreamError
  | request
  | failed
  | interrupted
  | noRealm
  | realm
  | endpoint (status : ℕ)
  | payload
  | noToken
  | unreachable

structure UpstreamRequest where
  url : Text
  path : Text

variable (up : Upstream)

/-- `client.Do`. -/
def send (endpoint : Endpoint) (url bearer : Text) (s : UpstreamState) :
    Except UpstreamError UpstreamResponse × UpstreamState :=
  let answer := up.answers s.exchanges.length
  (match answer with
    | some resp => .ok resp
    | none => .error .failed,
    { s with exchanges := s.exchanges++[⟨endpoint,url,bearer,answer⟩] })

def currentTime (s : UpstreamState) : ℤ × UpstreamState := (up.clock s.reads,{ s with reads := s.reads+1 })

/-- `Sleep`, and whether it went through. -/
def sleep (endpoint : Endpoint) (delay : ℤ) (s : UpstreamState) : Bool × UpstreamState :=
  (!up.interrupted s.slept.length,{ s with slept := s.slept++[(endpoint,delay)] })

/-- The loop of both kinds of requests, with the attempts that are left. -/
def retryLoop (retry : RetryPolicy) (endpoint : Endpoint)
    (request : UpstreamState → Except UpstreamError UpstreamResponse × UpstreamState) :
    ℕ → ℕ → UpstreamState → Except UpstreamError UpstreamResponse × UpstreamState
  | 0, _, s => (.error .unreachable,s)
  | left+1, attempt, s =>
    match request s with
    | (.error e,s) => (.error e,s)
    | (.ok resp,s) =>
      if resp.status ≠ 429 ∨ left = 0 then (.ok resp,s)
      else
        let (now,s) := currentTime up s
        match sleep up endpoint (retryDelay up.parseTime retry resp.retryAfter now attempt) s with
        | (false,s) => (.error .interrupted,s)
        | (true,s) => retryLoop retry endpoint request left (attempt+1) s

def doPlainRequest (policy : RetryPolicy) (url : Text) (s : UpstreamState) :
    Except UpstreamError UpstreamResponse × UpstreamState :=
  let retry := normalizedRetryPolicy policy
  retryLoop up retry .token (send up .token url []) retry.maxAttempts.toNat 0 s

def cachedToken (scope : Text) (s : UpstreamState) : Text × UpstreamState :=
  match s.tokens scope with
  | none => ([],s)
  | some entry =>
    let (now,s) := currentTime up s
    (if now < entry.expires then entry.value else [],s)

def forgetToken (scope : Text) (s : UpstreamState) : UpstreamState :=
  { s with tokens := Function.update s.tokens scope none }

/-- The token is kept under the scope, and those that have expired are dropped. -/
def keepToken (requestScope bearer : Text) (expiresIn : ℤ) (s : UpstreamState) : UpstreamState :=
  if requestScope = [] then s
  else
    let (now,s) := currentTime up s
    let live := fun scope => (s.tokens scope).filter fun entry => now < entry.expires
    { s with tokens := Function.update live requestScope (some ⟨bearer,now+tokenLifetime expiresIn⟩) }

def negotiateToken (policy : RetryPolicy) (challenge : BearerChallenge) (requestScope : Text) (s : UpstreamState) :
    Except UpstreamError Text × UpstreamState :=
  if challenge.realm = [] then (.error .noRealm,s)
  else
    let scope := if challenge.scope = [] then requestScope else challenge.scope
    match up.tokenURL challenge.realm challenge.service scope with
    | none => (.error .realm,s)
    | some url =>
      match doPlainRequest up policy url s with
      | (.error e,s) => (.error e,s)
      | (.ok resp,s) =>
        if resp.status ≠ 200 then (.error (.endpoint resp.status),s)
        else
          match resp.payload with
          | none => (.error .payload,s)
          | some payload =>
            let bearer := if payload.token = [] then payload.accessToken else payload.token
            if bearer = [] then (.error .noToken,s)
            else (.ok bearer,keepToken up requestScope bearer payload.expiresIn s)

def doRegistryAttempt (policy : RetryPolicy) (request : UpstreamRequest) (s : UpstreamState) :
    Except UpstreamError UpstreamResponse × UpstreamState :=
  let scope := scopeOf request.path
  let (bearer,s) := cachedToken up scope s
  match send up .registry request.url bearer s with
  | (.error e,s) => (.error e,s)
  | (.ok resp,s) =>
    if resp.status ≠ 401 then (.ok resp,s)
    else
      match bearerChallengeFrom resp.authenticate with
      | none => (.ok resp,s)
      | some challenge =>
        match negotiateToken up policy challenge scope (forgetToken scope s) with
        | (.error e,s) => (.error e,s)
        | (.ok bearer,s) => send up .registry request.url bearer s

def doRegistryRequest (policy : RetryPolicy) (request : UpstreamRequest) (s : UpstreamState) :
    Except UpstreamError UpstreamResponse × UpstreamState :=
  let retry := normalizedRetryPolicy policy
  retryLoop up retry .registry (doRegistryAttempt up policy request) retry.maxAttempts.toNat 0 s

/-- The request is the guest's, if one can be made of it. -/
def fetch (policy : RetryPolicy) (request : Option UpstreamRequest) (s : UpstreamState) :
    Except UpstreamError UpstreamResponse × UpstreamState :=
  match request with
  | none => (.error .request,s)
  | some request => doRegistryRequest up policy request s

def Exchange.limited (e : Endpoint) (x : Exchange) : Bool :=
  x.endpoint = e && x.answer.any fun resp => resp.status = 429

/-- The answers of an endpoint that say there were too many requests. -/
def limitedAt (e : Endpoint) (made : List Exchange) : ℕ := made.countP (Exchange.limited e)

def sleptAt (e : Endpoint) (delays : List (Endpoint × ℤ)) : ℕ := delays.countP fun d => d.1 = e

/-- The 429 the outcome leaves without a sleep, if it ended on one. -/
def unretried (at' : Endpoint) : Except UpstreamError UpstreamResponse → Endpoint → ℕ
  | .ok resp, e => if resp.status = 429 ∧ e = at' then 1 else 0
  | .error (.endpoint status), e => if status = 429 ∧ e = .token then 1 else 0
  | .error _, _ => 0

/-- At most `bound` sleeps for each endpoint, none longer than the cap, and one for every 429 but
the one it may end on. -/
structure Spent (cap : ℤ) (bound ending : Endpoint → ℕ) (s s' : UpstreamState) (delays : List (Endpoint × ℤ))
    (made : List Exchange) : Prop where
  slept : s'.slept = s.slept++delays
  exchanges : s'.exchanges = s.exchanges++made
  capped : ∀ d ∈ delays, d.2 ≤ cap
  bounded : ∀ e, sleptAt e delays ≤ bound e
  counted : ∀ e, sleptAt e delays + ending e = limitedAt e made

def Spends (cap : ℤ) (bound ending : Endpoint → ℕ) (s s' : UpstreamState) : Prop :=
  ∃ delays made, Spent cap bound ending s s' delays made

section

variable {up} {cap : ℤ} {bound bound' ending : Endpoint → ℕ} {s s₁ s₂ : UpstreamState}

lemma Spends.refl : Spends cap bound 0 s s :=
  ⟨[],[],by simp,by simp,nofun,fun _ => Nat.zero_le _,fun _ => rfl⟩

theorem Spends.trans (h : Spends cap bound 0 s s₁) (h' : Spends cap bound' ending s₁ s₂) :
    Spends cap (bound+bound') ending s s₂ := by
  obtain ⟨delays,made,h⟩ := h
  obtain ⟨delays',made',h'⟩ := h'
  refine ⟨delays++delays',made++made',?_,?_,fun d hd => ?_,fun e => ?_,fun e => ?_⟩
  · rw [h'.slept,h.slept,append_assoc]
  · rw [h'.exchanges,h.exchanges,append_assoc]
  · exact (mem_append.1 hd).elim (h.capped d) (h'.capped d)
  · rw [sleptAt,countP_append]
    exact Nat.add_le_add (h.bounded e) (h'.bounded e)
  · have hfst := h.counted e
    have hsec := h'.counted e
    simp only [sleptAt,limitedAt,countP_append,Pi.zero_apply] at hfst hsec ⊢
    omega

theorem Spends.of_log (h : Spends cap bound ending s₁ s₂) (hslp : s₁.slept = s.slept)
    (hexs : s₁.exchanges = s.exchanges) : Spends cap bound ending s s₂ := by
  obtain ⟨delays,made,h⟩ := h
  exact ⟨delays,made,hslp ▸ h.slept,hexs ▸ h.exchanges,h.capped,h.bounded,h.counted⟩

theorem Spends.to_log (h : Spends cap bound ending s s₁) (hslp : s₂.slept = s₁.slept)
    (hexs : s₂.exchanges = s₁.exchanges) : Spends cap bound ending s s₂ := by
  obtain ⟨delays,made,h⟩ := h
  exact ⟨delays,made,hslp.trans h.slept,hexs.trans h.exchanges,h.capped,h.bounded,h.counted⟩

theorem Spends.mono (h : Spends cap bound ending s s₁) (hle : ∀ e, bound e ≤ bound' e) :
    Spends cap bound' ending s s₁ := by
  obtain ⟨delays,made,h⟩ := h
  exact ⟨delays,made,h.slept,h.exchanges,h.capped,fun e => (h.bounded e).trans (hle e),h.counted⟩

theorem Spends.sleep {at' : Endpoint} (h : Spends cap bound (fun e => if e = at' then 1 else 0) s s₁)
    {delay : ℤ} (hdly : delay ≤ cap) (hslp : s₂.slept = s₁.slept++[(at',delay)])
    (hexs : s₂.exchanges = s₁.exchanges) :
    Spends cap (fun e => bound e + if e = at' then 1 else 0) 0 s s₂ := by
  obtain ⟨delays,made,h⟩ := h
  have hcnt : ∀ e, sleptAt e (delays++[(at',delay)]) = sleptAt e delays + if e = at' then 1 else 0 := by
    simp [sleptAt,eq_comm]
  refine ⟨delays++[(at',delay)],made,?_,hexs.trans h.exchanges,fun d hd => ?_,fun e => ?_,fun e => ?_⟩
  · rw [hslp,h.slept,append_assoc]
  · rcases mem_append.1 hd with hd | hd
    · exact h.capped d hd
    · rw [mem_singleton.1 hd]
      exact hdly
  · rw [hcnt]
    exact Nat.add_le_add_right (h.bounded e) _
  · rw [hcnt,← h.counted e]
    rfl

theorem send_spends {c : ℤ} (up : Upstream) (s : UpstreamState) (at' : Endpoint) (url bearer : Text) :
    Spends c 0 (unretried at' (send up at' url bearer s).1) s (send up at' url bearer s).2 := by
  refine ⟨[],_,by simp [send],rfl,nofun,fun _ => le_rfl,fun e => ?_⟩
  cases hans : up.answers s.exchanges.length with
  | none => simp [send,hans,unretried,sleptAt,limitedAt,Exchange.limited]
  | some resp =>
    by_cases hsa : resp.status = 429
    · by_cases he : e = at'
      · simp [send,hans,unretried,sleptAt,limitedAt,Exchange.limited,he]
      · simp [send,hans,unretried,sleptAt,limitedAt,Exchange.limited,he,Ne.symm he]
    · simp [send,hans,unretried,sleptAt,limitedAt,Exchange.limited,hsa]

theorem unretried_of_ne {at' : Endpoint} {resp : UpstreamResponse} (h : resp.status ≠ 429) :
    unretried at' (.ok resp) = 0 := by
  funext e
  simp [unretried,h]

theorem unretried_of_eq {at' : Endpoint} {resp : UpstreamResponse} (h : resp.status = 429) :
    unretried at' (.ok resp) = fun e => if e = at' then 1 else 0 := by
  funext e
  simp [unretried,h]

end

/-- The sleeps of a loop: those of the attempts left and one between two. -/
def loopBound (at' : Endpoint) (each : Endpoint → ℕ) (left : ℕ) (e : Endpoint) : ℕ :=
  left*each e + if e = at' then left-1 else 0

theorem retryLoop_spends {retry : RetryPolicy} {at' : Endpoint}
    {req : UpstreamState → Except UpstreamError UpstreamResponse × UpstreamState} {each : Endpoint → ℕ}
    (hreq : ∀ s, Spends retry.maxDelay each (unretried at' (req s).1) s (req s).2) (left attempt : ℕ)
    (s : UpstreamState) :
    Spends retry.maxDelay (loopBound at' each left) (unretried at' (retryLoop up retry at' req left attempt s).1)
      s (retryLoop up retry at' req left attempt s).2 := by
  induction left generalizing attempt s with
  | zero => exact Spends.refl
  | succ left ih =>
    have hfst := hreq s
    have hone : ∀ e, each e ≤ loopBound at' each (left+1) e := by
      intro e
      rw [loopBound,Nat.succ_mul]
      omega
    rw [retryLoop]
    rcases hout : req s with ⟨out,s₁⟩
    rw [hout] at hfst
    cases out with
    | error e => exact hfst.mono hone
    | ok resp =>
      simp only
      by_cases hdn : resp.status ≠ 429 ∨ left = 0
      · rw [if_pos hdn]
        exact hfst.mono hone
      · rw [if_neg hdn]
        obtain ⟨hsa,hlf⟩ := not_or.1 hdn
        rw [unretried_of_eq (not_not.1 hsa)] at hfst
        obtain ⟨delay,hdly⟩ : ∃ delay, delay = retryDelay up.parseTime retry resp.retryAfter (up.clock s₁.reads) attempt :=
          ⟨_,rfl⟩
        obtain ⟨s₂,hs₂⟩ : ∃ s₂, s₂ = (sleep up at' delay { s₁ with reads := s₁.reads+1 }).2 := ⟨_,rfl⟩
        have hslp : Spends retry.maxDelay (fun e => each e + if e = at' then 1 else 0) 0 s s₂ := by
          refine hfst.sleep (hdly ▸ retryDelay_le) ?_ ?_
          · rw [hs₂]
            rfl
          · rw [hs₂]
            rfl
        have hbd : ∀ e, (each e + if e = at' then 1 else 0) + loopBound at' each left e ≤
            loopBound at' each (left+1) e := by
          intro e
          rw [loopBound,loopBound,Nat.succ_mul]
          split_ifs <;> omega
        have hsleep : sleep up at' delay { s₁ with reads := s₁.reads+1 } =
            (!up.interrupted s₁.slept.length,s₂) := by
          rw [hs₂]
          rfl
        simp only [currentTime,← hdly,hsleep]
        cases up.interrupted s₁.slept.length with
        | true => exact hslp.mono fun e => (Nat.le_add_right _ _).trans (hbd e)
        | false => exact (hslp.trans (ih (attempt+1) s₂)).mono hbd

section

variable (policy : RetryPolicy) (s : UpstreamState)

/-- The attempts a policy allows. -/
def RetryPolicy.attempts (policy : RetryPolicy) : ℕ := (normalizedRetryPolicy policy).maxAttempts.toNat

/-- The sleeps of a token exchange. -/
def exchangeBound (policy : RetryPolicy) (e : Endpoint) : ℕ := if e = .token then policy.attempts-1 else 0

theorem doPlainRequest_spends (url : Text) :
    Spends (normalizedRetryPolicy policy).maxDelay (exchangeBound policy)
      (unretried .token (doPlainRequest up policy url s).1) s (doPlainRequest up policy url s).2 := by
  have hsend : ∀ s, Spends (normalizedRetryPolicy policy).maxDelay 0
      (unretried .token (send up .token url [] s).1) s (send up .token url [] s).2 :=
    fun s => send_spends up s .token url []
  refine (retryLoop_spends up hsend policy.attempts 0 s).mono fun e => ?_
  simp [loopBound,exchangeBound]

theorem keepToken_log (scope bearer : Text) (expiresIn : ℤ) :
    (keepToken up scope bearer expiresIn s).slept = s.slept ∧
      (keepToken up scope bearer expiresIn s).exchanges = s.exchanges := by
  unfold keepToken
  split_ifs
  · exact ⟨rfl,rfl⟩
  · exact ⟨rfl,rfl⟩

lemma unretried_error (at' at'' : Endpoint) (e : UpstreamError) :
    unretried at' (.error e) = unretried at'' (.error e) := by
  cases e <;> rfl

/-- What an exchange for a token leaves unanswered; only an error tells of it. -/
def unnegotiated : Except UpstreamError Text → Endpoint → ℕ
  | .ok _ => 0
  | .error e => unretried .registry (.error e)

theorem negotiateToken_spends (challenge : BearerChallenge) (scope : Text) :
    Spends (normalizedRetryPolicy policy).maxDelay (exchangeBound policy)
      (unnegotiated (negotiateToken up policy challenge scope s).1) s
      (negotiateToken up policy challenge scope s).2 := by
  have hno : Spends (normalizedRetryPolicy policy).maxDelay (exchangeBound policy) 0 s s :=
    Spends.refl
  simp only [negotiateToken]
  by_cases hrealm : challenge.realm = []
  · rw [if_pos hrealm]
    exact hno
  rw [if_neg hrealm]
  cases up.tokenURL challenge.realm challenge.service (if challenge.scope = [] then scope else challenge.scope) with
  | none => exact hno
  | some url =>
    have hpl := doPlainRequest_spends up policy s url
    rcases hout : doPlainRequest up policy url s with ⟨out,s₁⟩
    rw [hout] at hpl
    cases out with
    | error e =>
      rw [unretried_error .token .registry] at hpl
      simp only [hout]
      exact hpl
    | ok resp =>
      simp only [hout] at hpl ⊢
      by_cases hsa : resp.status = 200
      · rw [if_neg (not_not.2 hsa)]
        rw [unretried_of_ne (by omega)] at hpl
        cases resp.payload with
        | none => exact hpl
        | some pay =>
          simp only
          by_cases hbrr : (if pay.token = [] then pay.accessToken else pay.token) = []
          · rw [if_pos hbrr]
            exact hpl
          · rw [if_neg hbrr]
            obtain ⟨hslp,hexs⟩ := keepToken_log up s₁ scope
              (if pay.token = [] then pay.accessToken else pay.token) pay.expiresIn
            exact hpl.to_log hslp hexs
      · rw [if_pos hsa]
        exact hpl

theorem cachedToken_log (scope : Text) :
    (cachedToken up scope s).2.slept = s.slept ∧ (cachedToken up scope s).2.exchanges = s.exchanges := by
  unfold cachedToken
  cases s.tokens scope with
  | none => exact ⟨rfl,rfl⟩
  | some entry => exact ⟨rfl,rfl⟩

/-- Behind the token exchange: its error is the attempt's, its token goes with the next request. -/
theorem doRegistryAttempt_spends (req : UpstreamRequest) :
    Spends (normalizedRetryPolicy policy).maxDelay (exchangeBound policy)
      (unretried .registry (doRegistryAttempt up policy req s).1) s (doRegistryAttempt up policy req s).2 := by
  obtain ⟨hslp,hexs⟩ := cachedToken_log up s (scopeOf req.path)
  simp only [doRegistryAttempt]
  rcases hcached : cachedToken up (scopeOf req.path) s with ⟨bearer,s₁⟩
  rw [hcached] at hslp hexs
  rcases hsend : send up .registry req.url bearer s₁ with ⟨out,s₂⟩
  have hfst : Spends (normalizedRetryPolicy policy).maxDelay 0 (unretried .registry out) s s₂ := by
    have h := send_spends (c := (normalizedRetryPolicy policy).maxDelay) up s₁ .registry req.url bearer
    rw [hsend] at h
    exact h.of_log hslp hexs
  have hbd : ∀ e, (0 : Endpoint → ℕ) e ≤ exchangeBound policy e := fun e => Nat.zero_le _
  cases out with
  | error e =>
    simp only
    exact hfst.mono hbd
  | ok resp =>
    simp only
    by_cases hsa : resp.status = 401
    · rw [if_neg (not_not.2 hsa)]
      cases bearerChallengeFrom resp.authenticate with
      | none => exact hfst.mono hbd
      | some challenge =>
        simp only
        rw [unretried_of_ne (by omega)] at hfst
        have htoken := hfst.trans ((negotiateToken_spends up policy (forgetToken (scopeOf req.path) s₂) challenge
          (scopeOf req.path)).of_log rfl rfl)
        rcases hnego : negotiateToken up policy challenge (scopeOf req.path)
          (forgetToken (scopeOf req.path) s₂) with ⟨out,s₃⟩
        rw [hnego,zero_add] at htoken
        cases out with
        | error e =>
          simp only
          exact htoken
        | ok bearer =>
          simp only
          have hla := htoken.trans (send_spends up s₃ .registry req.url bearer)
          exact hla
    · rw [if_pos hsa]
      exact hfst.mono hbd

/-- The sleeps of a fill. -/
def fillBound (policy : RetryPolicy) : Endpoint → ℕ
  | .registry => policy.attempts-1
  | .token => policy.attempts*(policy.attempts-1)

theorem fetch_spends (req : Option UpstreamRequest) :
    Spends (normalizedRetryPolicy policy).maxDelay (fillBound policy)
      (unretried .registry (fetch up policy req s).1) s (fetch up policy req s).2 := by
  cases req with
  | none => exact Spends.refl
  | some req =>
    have hlp := retryLoop_spends up (fun s => doRegistryAttempt_spends up policy s req) policy.attempts 0 s
    refine hlp.mono fun e => ?_
    cases e <;> simp [loopBound,exchangeBound,fillBound]

end

/-- The fill ended on a 429, its own or that of a token exchange. -/
def endedLimited : Except UpstreamError UpstreamResponse → Bool
  | .ok resp => resp.status = 429
  | .error (.endpoint status) => status = 429
  | .error _ => false

theorem unretried_add (out : Except UpstreamError UpstreamResponse) :
    unretried .registry out .registry + unretried .registry out .token = if endedLimited out then 1 else 0 := by
  match out with
  | .ok resp => simp [unretried,endedLimited]
  | .error (.endpoint status) => simp [unretried,endedLimited]
  | .error .request | .error .failed | .error .interrupted | .error .noRealm | .error .realm | .error .payload
  | .error .noToken | .error .unreachable => rfl

theorem length_eq_sleptAt (delays : List (Endpoint × ℤ)) :
    delays.length = sleptAt .registry delays + sleptAt .token delays := by
  induction delays with
  | nil => rfl
  | cons d delays ih =>
    rcases d with ⟨_ | _,delay⟩
    · simp only [sleptAt] at ih ⊢
      simp
      omega
    · simp only [sleptAt] at ih ⊢
      simp
      omega

theorem sum_le_of_capped {cap : ℤ} {delays : List (Endpoint × ℤ)} (h : ∀ d ∈ delays, d.2 ≤ cap) :
    (delays.map Prod.snd).sum ≤ delays.length*cap := by
  have hsum := sum_le_card_nsmul (delays.map Prod.snd) cap (forall_mem_map.2 h)
  simpa using hsum

theorem normalizedRetryPolicy_pos (policy : RetryPolicy) :
    0 < policy.attempts ∧ 0 < (normalizedRetryPolicy policy).maxDelay := by
  simp only [RetryPolicy.attempts,normalizedRetryPolicy]
  refine ⟨?_,?_⟩
  · split_ifs <;> omega
  · split_ifs with h
    · decide
    · omega

/-- An upstream with these answers; dates are not read and nothing interrupts. -/
def answering (answers : List UpstreamResponse) : Upstream where
  answers i := answers[i]?
  clock i := i
  interrupted _ := false
  parseTime _ := none
  tokenURL realm _ _ := some realm

def unauthorized : UpstreamResponse := ⟨401,[],["Bearer realm=\"https://auth.test/token\"".toList],none⟩
def tooMany : UpstreamResponse := ⟨429,"1".toList,[],none⟩
def granted : UpstreamResponse := ⟨200,[],[],some ⟨"secret".toList,[],300⟩⟩

def manifestFill : UpstreamRequest := ⟨"https://registry.test/v2/app/manifests/v1".toList,"/v2/app/manifests/v1".toList⟩

def freshState : UpstreamState := ⟨fun _ => none,[],[],0⟩

/-- Each attempt is sent to the token endpoint, which asks for a retry twice. -/
def exhausting : List UpstreamResponse :=
  [unauthorized,tooMany,tooMany,granted,tooMany,unauthorized,tooMany,tooMany,granted,tooMany,
    unauthorized,tooMany,tooMany,granted,granted]

end TalosBox.Registry
