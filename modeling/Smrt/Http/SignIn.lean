import Smrt.Http.Access
import Smrt.Http.ETag
import Smrt.Lib.Blocks
import Smrt.Lib.Hex
import Smrt.Lib.Lossy
import Smrt.Lib.Split

/-!
# Signing in

Somebody signs in through GitHub. The mirror sends their browser there with a token that it also
sets as a cookie (`githubLogin`). GitHub sends the browser back with a code and the token, and the
mirror compares the token with the cookie before it asks GitHub whose the code is and opens a
session, whose id is another cookie (`githubCallback`). The cookies are read off a header
(`cookieValue`).

The system has any number of browsers, each with a person in front of it, in any order of their
steps (`system`). Some are in the hands of people who send what they like, and who have any other
browser follow a link that they made up; they know neither the tokens that were drawn for others
nor the codes of others.

* `cookieValue_cookieHeader`: a cookie is read as it was set;
* `constantTimeEq_iff`: the comparison of tokens is exact;
* `Sound`: what holds in every state reached;
* `signed_in`: a browser is never signed in as anybody but the person in front of it, and nobody
  else is signed in as that person.
-/

namespace Smrt

namespace SignIn

/-! ## Cookies -/

def cookieName : String := "smrt_session"

def stateCookieName : String := "smrt_oauth_state"

def maxAgeSecs : ℕ := 86400

def stateMaxAgeSecs : ℕ := 600

/-- A cookie that is set, or taken away if it is to last no time. -/
structure Cookie where
  name : String
  value : String
  secure : Bool
  sameSite : String
  path : String
  maxAge : ℕ
  deriving DecidableEq

/-- How a cookie is sent. -/
def buildCookie (c : Cookie) : String :=
  c.name ++ "=" ++ c.value ++ "; HttpOnly; SameSite=" ++ c.sameSite ++ "; Path=" ++ c.path ++
    "; Max-Age=" ++ toString c.maxAge ++ if c.secure then "; Secure" else ""

def sessionCookie (value : String) (secure clear : Bool) : Cookie where
  name := cookieName
  value := value
  secure := secure
  sameSite := "Strict"
  path := "/"
  maxAge := if clear then 0 else maxAgeSecs

/-- The token that goes to GitHub and back. It is lax, as it has to come back from there. -/
def stateCookie (value : String) (secure clear : Bool) : Cookie where
  name := stateCookieName
  value := value
  secure := secure
  sameSite := "Lax"
  path := "/v1/auth"
  maxAge := if clear then 0 else stateMaxAgeSecs

/-- The value of a cookie in a header. -/
def cookieValue (header : Option String) (name : String) : Option String :=
  (header.bind headerStr).bind fun h =>
    (h.toList.splitOn ';').findSome? fun part =>
      stripPrefix (trim (String.ofList part)) (name ++ "=")

/-- The header in which a browser sends its cookies. -/
def cookieHeader (pairs : List (String × String)) : Option String :=
  if pairs = [] then none else some ("; ".intercalate (pairs.map fun p => p.1 ++ "=" ++ p.2))

/-- A letter that stands for itself in a cookie. -/
def isCookieChar (c : Char) : Bool :=
  c ≠ ';' ∧ isWhiteSpace c = false ∧ 32 ≤ c.toNat ∧ c.toNat ≤ 126

/-- A text of such letters. -/
def isCookieText (s : String) : Bool := s.toList.all isCookieChar

/-- The cookies of the mirror that a browser has. -/
structure Browser where
  state : Option String
  session : Option String
  deriving DecidableEq

namespace Browser

def empty : Browser := ⟨none, none⟩

/-- What a browser makes of a cookie that is set. -/
def accept (b : Browser) (c : Cookie) : Browser :=
  let value := if c.maxAge = 0 then none else some c.value
  if c.name = stateCookieName then { b with state := value } else { b with session := value }

variable (b : Browser)

/-- The cookies that it sends where people sign in, the longest path first. -/
def pairs : List (String × String) :=
  b.state.toList.map (stateCookieName, ·) ++ b.session.toList.map (cookieName, ·)

def header : Option String := cookieHeader b.pairs

end Browser

/-! ## The mirror -/

structure Config extends MirrorConfig where
  githubClientId : Option String
  githubClientSecret : Option String
  mirrorBase : String
  cookieSecure : Bool

/-- Where a browser is sent. -/
inductive Location
  /-- The panel, which is told why nobody is signed in. -/
  | panel (auth : Option String)
  | github (clientId redirectUri state : String)
  deriving DecidableEq

structure Answer where
  location : Location
  cookies : List Cookie
  deriving DecidableEq

/-- A token of random bytes. -/
def randomToken (bytes : List UInt8) : String := hexOf bytes

/-- Whether two texts are the same, by all of their bytes. -/
def constantTimeEq (a b : List UInt8) : Bool :=
  if a.length ≠ b.length then false
  else (a.zip b).foldl (fun diff p => diff ||| (p.1 ^^^ p.2)) 0 = 0

def asBytes (s : String) : List UInt8 := s.toList.flatMap String.utf8EncodeChar

section Mirror

variable (config : Config)

def callbackUri : String := config.mirrorBase ++ "/v1/auth/github/callback"

def githubLogin (csrf : String) : Answer :=
  match config.githubClientId with
  | none => ⟨.panel (some "unconfigured"), []⟩
  | some clientId =>
    ⟨.github clientId (callbackUri config) csrf, [stateCookie csrf config.cookieSecure false]⟩

def redirectClearingState (auth : String) : Answer :=
  ⟨.panel (some auth), [stateCookie "" config.cookieSecure true]⟩

/-- An account of GitHub is signed in, under a fresh session. -/
def openSession (a : Accounts) (user : UInt64 × String) (sid : String) (now : Int64) :
    Answer × Accounts :=
  match a.signInGithub user.1.toInt64 user.2 (config.forcedRole user.1) sid now with
  | none => (redirectClearingState config "failed", a)
  | some a =>
    (⟨.panel none, [sessionCookie sid config.cookieSecure false,
      stateCookie "" config.cookieSecure true]⟩, a)

/-- GitHub sends somebody back. `exchange` is what it answers about a code. -/
def githubCallback (exchange : String → Option (UInt64 × String)) (a : Accounts)
    (code state header : Option String) (sid : String) (now : Int64) : Answer × Accounts :=
  match code, state, cookieValue header stateCookieName with
  | some code, some retState, some expState =>
    if ¬ constantTimeEq (asBytes retState) (asBytes expState) then
      (redirectClearingState config "failed", a)
    else
      match config.githubClientId, config.githubClientSecret, exchange code with
      | some _, some _, some user => openSession config a user sid now
      | some _, some _, none => (redirectClearingState config "failed", a)
      | _, _, _ => (redirectClearingState config "unconfigured", a)
  | _, _, _ => (redirectClearingState config "failed", a)

/-- Whose session a request comes with. -/
def identityIn (a : Accounts) (header : Option String) (now : Int64) : Option Identity × Accounts :=
  a.resolveIdentity config.toMirrorConfig ⟨none, cookieValue header cookieName⟩ now

def logout (a : Accounts) (header : Option String) : Cookie × Accounts :=
  (sessionCookie "" config.cookieSecure true,
    match cookieValue header cookieName with
    | none => a
    | some sid => { a with sessions := a.sessions.erase sid })

end Mirror

/-! ## The system -/

/-- The mirror, the browsers, and what GitHub knows. -/
structure State where
  accounts : Accounts
  browsers : ℕ → Browser
  now : Int64
  /-- The tokens that were drawn, each with the browser that it was drawn for. -/
  drawn : List (String × ℕ)
  /-- The codes that GitHub gave out, each with the browser in front of which somebody agreed. -/
  codes : List (String × ℕ)
  /-- The codes that it does not take now. -/
  refused : List String
  /-- Where it sent browsers: a code, and the token that came with them. -/
  returns : List (ℕ × String × String)

/-- What is done next. -/
inductive Act
  /-- A browser asks to sign in. -/
  | login (i : ℕ) (bytes : List UInt8)
  /-- The person in front of a browser agrees, where any link brought them. -/
  | agree (i : ℕ) (code state : String)
  /-- GitHub refuses codes from now on, as they were used or are old, or as it is down. -/
  | refuse (codes : List String)
  /-- A browser goes where GitHub sent it. -/
  | follow (i : ℕ) (code state : String) (bytes : List UInt8)
  /-- A browser goes where somebody else sends it. -/
  | lure (i : ℕ) (code state : Option String) (bytes : List UInt8)
  /-- Somebody sends what they like from their browser. -/
  | forge (i : ℕ) (code state header : Option String) (bytes : List UInt8)
  | logout (i : ℕ)
  /-- A request comes with a header. -/
  | visit (header : Option String)
  /-- A browser drops cookies. -/
  | forget (i : ℕ) (state session : Bool)
  | setRole (uid : Int64) (role : String)
  | tick (now : Int64)
  deriving DecidableEq

section System

/- The account in front of each browser, and whether the browser does only what it is asked. -/
variable (config : Config) (person : ℕ → UInt64 × String) (honest : ℕ → Bool)

namespace State

variable (s : State)

/-- What GitHub answers about a code. -/
def exchange (code : String) : Option (UInt64 × String) :=
  if s.refused.contains code then none else (s.codes.lookup code).map person

/-- Whether others know neither the code nor the token. -/
def secret (code token : Option String) : Bool :=
  (code.bind (s.codes.lookup ·)).any honest || (token.bind (s.drawn.lookup ·)).any honest

/-- A token is drawn for a browser, which accepts the cookies that it is answered with. -/
def answer (i : ℕ) (token : String) (cookies : List Cookie) (accounts : Accounts) : State :=
  { s with
    accounts
    browsers := setAt s.browsers i (cookies.foldl Browser.accept (s.browsers i))
    drawn := (token, i) :: s.drawn }

/-- A browser asks to sign in. -/
def login (i : ℕ) (token : String) : Option State :=
  if (s.drawn.lookup token).isSome then none
  else some (s.answer i token (githubLogin config token).cookies s.accounts)

/-- A browser arrives where GitHub sends those who agreed. -/
def arrive (i : ℕ) (code state header : Option String) (sid : String) : Option State :=
  if (s.drawn.lookup sid).isSome then none
  else
    let r := githubCallback config (s.exchange person) s.accounts code state header sid s.now
    some (s.answer i sid r.1.cookies r.2)

end State

/-- The account of the mirror of the person in front of a browser. -/
def uid (i : ℕ) : Int64 := (person i).1.toInt64

/-- The state after a step. -/
def step (s : State) : Act → Option State
  | .login i bytes => s.login config i (randomToken bytes)
  | .agree i code state =>
    if (s.codes.lookup code).isSome then none
    else some { s with codes := (code, i) :: s.codes, returns := (i, code, state) :: s.returns }
  | .refuse codes => some { s with refused := codes }
  | .follow i code state bytes =>
    if (i, code, state) ∈ s.returns then
      s.arrive config person i (some code) (some state) (s.browsers i).header (randomToken bytes)
    else none
  | .lure i code state bytes =>
    if s.secret honest code state then none
    else s.arrive config person i code state (s.browsers i).header (randomToken bytes)
  | .forge i code state header bytes =>
    if honest i ∨ s.secret honest code state then none
    else s.arrive config person i code state header (randomToken bytes)
  | .logout i =>
    let r := logout config s.accounts (s.browsers i).header
    some { s with
      accounts := r.2
      browsers := setAt s.browsers i ((s.browsers i).accept r.1) }
  | .visit header => some { s with accounts := (identityIn config s.accounts header s.now).2 }
  | .forget i state session => some { s with
      browsers := setAt s.browsers i
        ⟨if state then none else (s.browsers i).state,
          if session then none else (s.browsers i).session⟩ }
  | .setRole account role =>
    (s.accounts.setRole account role).toOption.map fun accounts => { s with accounts }
  | .tick now => some { s with now }

/-- The mirror, to which nobody has signed in yet. -/
def system : System State Act where
  init := fun s => (∀ i, s.browsers i = .empty) ∧ s.accounts.sessions = ∅ ∧ s.drawn = [] ∧
    s.codes = [] ∧ s.returns = []
  step := step config person honest

end System

/-! ## Reading cookies -/

theorem lookup_cookies {pairs : List (String × String)} {name : String}
    (hname : '=' ∉ name.toList) (h : ∀ p ∈ pairs, '=' ∉ p.1.toList) :
    (pairs.map fun p => p.1 ++ "=" ++ p.2).findSome? (fun s => stripPrefix s (name ++ "=")) =
      pairs.lookup name := by
  induction pairs with
  | nil => rfl
  | cons p pairs ih =>
    have hp := h p List.mem_cons_self
    have hiff (rest : String) : stripPrefix (p.1 ++ "=" ++ p.2) (name ++ "=") = some rest ↔
        name = p.1 ∧ rest = p.2 := by
      have hsign : "=".toList = ['='] := rfl
      rw [stripPrefix_eq_some, ← String.toList_inj, String.append_assoc, String.append_assoc,
        String.toList_append, String.toList_append, String.toList_append, String.toList_append,
        hsign, List.singleton_append, List.singleton_append,
        append_cons_inj hp hname, String.toList_inj, String.toList_inj]
      simp only [eq_comm]
    rw [List.map_cons, List.findSome?_cons, ih fun q hq => h q (List.mem_cons_of_mem _ hq),
      List.lookup_cons]
    by_cases hn : name = p.1
    · rw [(hiff p.2).2 ⟨hn, rfl⟩, hn, beq_self_eq_true]
    · have hnone : stripPrefix (p.1 ++ "=" ++ p.2) (name ++ "=") = none := by
        rw [Option.eq_none_iff_forall_ne_some]
        intro rest hrest
        exact hn ((hiff rest).1 hrest).1
      rw [hnone, beq_false_of_ne hn]

/-- The letters of cookies: none of them ends one or is trimmed away, and all can be read. -/
theorem of_isCookieText {s : String} (h : isCookieText s) :
    ';' ∉ s.toList ∧ (∀ c ∈ s.toList, isWhiteSpace c = false) ∧
      ∀ c ∈ s.toList, 32 ≤ c.toNat ∧ c.toNat ≤ 126 := by
  have hall (c : Char) (hc : c ∈ s.toList) := of_decide_eq_true (List.all_eq_true.1 h c hc)
  refine ⟨fun hmem => (hall ';' hmem).1 rfl, ?_, ?_⟩
  · intro c hc
    exact (hall c hc).2.1
  · intro c hc
    exact (hall c hc).2.2

theorem trim_space {s : String} (h : ∀ c ∈ s.toList, isWhiteSpace c = false) :
    trim (String.ofList (' ' :: s.toList)) = s := by
  have hspace : isWhiteSpace ' ' = true := by decide
  have htrim := trim_eq_self h
  rw [trim] at htrim ⊢
  rw [String.toList_ofList, List.dropWhile_cons_of_pos hspace]
  exact htrim

/-- What a header is split into. -/
theorem trim_splitOn {s : String} {l : List String} (hs : isCookieText s)
    (h : ∀ t ∈ l, isCookieText t) :
    ((("; ".intercalate (s :: l)).toList.splitOn ';').map fun part => trim (String.ofList part)) =
      s :: l := by
  -- the space that follows a semicolon goes with what it is before
  have hjoin : ("; ".intercalate (s :: l)).toList =
      [';'].intercalate (s.toList :: l.map fun t => ' ' :: t.toList) := by
    clear h hs
    have hhead (c : Char) (u : List Char) (m : List (List Char)) :
        [';'].intercalate ((c :: u) :: m) = c :: [';'].intercalate (u :: m) := by
      rcases m with _ | ⟨v, m⟩
      · rw [List.intercalate_singleton, List.intercalate_singleton]
      · rw [List.intercalate_cons_cons, List.intercalate_cons_cons, List.append_assoc,
          List.append_assoc, List.cons_append]
    induction l generalizing s with
    | nil => rw [String.intercalate_singleton, List.map_nil, List.intercalate_singleton]
    | cons t l ih =>
      rw [String.intercalate_cons_cons, String.toList_append, String.toList_append, ih,
        List.map_cons, List.intercalate_cons_cons, hhead, List.append_assoc, List.append_assoc]
      rfl
  rw [hjoin, List.splitOn_intercalate]
  · rw [List.map_cons, String.ofList_toList, trim_eq_self (of_isCookieText hs).2.1, List.map_map]
    congr 1
    refine (List.map_congr_left fun t ht => ?_).trans (List.map_id l)
    exact trim_space (of_isCookieText (h t ht)).2.1
  · intro t ht
    rcases List.mem_cons.1 ht with rfl | ht
    · exact (of_isCookieText hs).1
    · obtain ⟨t, htl, rfl⟩ := List.mem_map.1 ht
      exact List.not_mem_cons_of_ne_of_not_mem (by decide) (of_isCookieText (h t htl)).1
  · exact List.cons_ne_nil _ _

/-- The header of text that can be in one. -/
theorem headerStr_intercalate {l : List String} (h : ∀ t ∈ l, isCookieText t) :
    headerStr ("; ".intercalate l) = some ("; ".intercalate l) := by
  refine if_pos ?_
  induction l with
  | nil => rfl
  | cons s l ih =>
    have hs : (s.toList.all fun c => c.toNat = 9 ∨ (32 ≤ c.toNat ∧ c.toNat ≤ 126)) = true := by
      refine List.all_eq_true.2 fun c hc => decide_eq_true (.inr ?_)
      exact (of_isCookieText (h s List.mem_cons_self)).2.2 c hc
    rcases l with _ | ⟨t, l⟩
    · rwa [String.intercalate_singleton]
    · rw [String.intercalate_cons_cons, String.toList_append, String.toList_append,
        List.all_append, List.all_append, hs, ih fun u hu => h u (List.mem_cons_of_mem _ hu)]
      rfl

/-- A cookie is read as it was set. -/
theorem cookieValue_cookieHeader {pairs : List (String × String)} {name : String}
    (hname : '=' ∉ name.toList) (hnames : ∀ p ∈ pairs, '=' ∉ p.1.toList ∧ isCookieText p.1)
    (hvalues : ∀ p ∈ pairs, isCookieText p.2) :
    cookieValue (cookieHeader pairs) name = pairs.lookup name := by
  rw [cookieHeader]
  split_ifs with hnil
  · rw [hnil]
    rfl
  have htexts : ∀ t ∈ pairs.map fun p => p.1 ++ "=" ++ p.2, isCookieText t := by
    intro t ht
    obtain ⟨p, hp, rfl⟩ := List.mem_map.1 ht
    rw [isCookieText, String.toList_append, String.toList_append, List.all_append, List.all_append]
    rw [Bool.and_eq_true, Bool.and_eq_true]
    exact ⟨⟨(hnames p hp).2, rfl⟩, hvalues p hp⟩
  have hread : (("; ".intercalate (pairs.map fun p => p.1 ++ "=" ++ p.2)).toList.splitOn ';').map
      (fun part => trim (String.ofList part)) = pairs.map fun p => p.1 ++ "=" ++ p.2 := by
    rcases pairs with _ | ⟨p, pairs⟩
    · exact absurd rfl hnil
    · exact trim_splitOn (htexts _ List.mem_cons_self) fun t ht =>
        htexts t (List.mem_cons_of_mem _ ht)
  rw [cookieValue, Option.bind_some, headerStr_intercalate htexts, Option.bind_some,
    ← lookup_cookies hname fun p hp => (hnames p hp).1]
  refine Eq.trans ?_ (congrArg (List.findSome? fun s => stripPrefix s (name ++ "=")) hread)
  rw [List.findSome?_map]
  rfl

/-! ## Comparing tokens -/

theorem foldl_diff_eq_zero {l : List (UInt8 × UInt8)} {diff : UInt8} :
    l.foldl (fun diff p => diff ||| (p.1 ^^^ p.2)) diff = 0 ↔ diff = 0 ∧ ∀ p ∈ l, p.1 = p.2 := by
  induction l generalizing diff with
  | nil => exact (and_iff_left fun _ hp => absurd hp List.not_mem_nil).symm
  | cons p l ih =>
    rw [List.foldl_cons, ih, UInt8.or_eq_zero_iff, UInt8.xor_eq_zero_iff, List.forall_mem_cons,
      and_assoc]

/-- The comparison tells every two texts apart, though it always reads all of them. -/
theorem constantTimeEq_iff {a b : List UInt8} : constantTimeEq a b = true ↔ a = b := by
  rw [constantTimeEq]
  split_ifs with hlength
  · exact ⟨False.elim, fun h => absurd (congrArg List.length h) hlength⟩
  · rw [not_not] at hlength
    rw [decide_eq_true_iff, foldl_diff_eq_zero, and_iff_right rfl, ← List.forall₂_eq_eq_eq,
      List.forall₂_iff_zip, and_iff_right hlength]
    exact ⟨fun h _ _ hp => h _ hp, fun h p hp => h hp⟩

theorem asBytes_injective : Function.Injective asBytes := by
  intro s t h
  have hlossy (u : String) : lossy (asBytes u) = u.toList := by
    have h := @lossy_encode [] u.toList
    rw [List.append_nil] at h
    exact h.trans (List.append_nil _)
  rw [← String.toList_inj, ← hlossy s, ← hlossy t, h]

/-! ## Every state reached -/

section Runs

variable {config : Config} {person : ℕ → UInt64 × String} {honest : ℕ → Bool} {s s' : State}

variable (person honest) in
/-- Whether an account is of the person in front of a browser. Those who send what they like may
    let each other in. -/
def Theirs (i : ℕ) (account : Int64) : Prop :=
  ∃ k, account = uid person k ∧ (k = i ∨ honest k = false ∧ honest i = false)

variable (person honest) in
/-- What holds in every state reached. -/
structure Sound (s : State) : Prop where
  token : ∀ t i, s.drawn.lookup t = some i → isCookieText t
  state : ∀ i t, (s.browsers i).state = some t → s.drawn.lookup t = some i
  session : ∀ i t, (s.browsers i).session = some t → s.drawn.lookup t = some i
  /-- A session was opened with a token, for the person in front of the browser. -/
  opened : ∀ t row, s.accounts.sessions.lookup t = some row →
    ∃ i, s.drawn.lookup t = some i ∧ Theirs person honest i row.uid
  returns : ∀ i code t, (i, code, t) ∈ s.returns → s.codes.lookup code = some i

theorem isCookieText_randomToken (bytes : List UInt8) : isCookieText (randomToken bytes) := by
  have hdigits : (hexDigits.all isCookieChar) = true := by decide
  refine List.all_eq_true.2 fun c hc => ?_
  exact List.all_eq_true.1 hdigits c (mem_hexOf bytes c hc)

/-- What was there is there, under whatever is new. -/
theorem lookup_grown {l : List (String × ℕ)} {a b : String} {i j : ℕ} (hb : l.lookup b = none)
    (ha : l.lookup a = some i) : ((b, j) :: l).lookup a = some i := by
  have hne : a ≠ b := by
    rintro rfl
    rw [hb] at ha
    cases ha
  rw [List.lookup_cons, beq_false_of_ne hne]
  exact ha

/-- A browser sends the cookies that it has. -/
theorem Sound.cookies (h : Sound person honest s) (i : ℕ) :
    cookieValue (s.browsers i).header stateCookieName = (s.browsers i).state ∧
      cookieValue (s.browsers i).header cookieName = (s.browsers i).session := by
  have hstate : '=' ∉ stateCookieName.toList ∧ isCookieText stateCookieName := by decide
  have hsession : '=' ∉ cookieName.toList ∧ isCookieText cookieName := by decide
  have hnames : ∀ p ∈ (s.browsers i).pairs, '=' ∉ p.1.toList ∧ isCookieText p.1 := by
    intro p hp
    rw [Browser.pairs, List.mem_append, List.mem_map, List.mem_map] at hp
    rcases hp with ⟨_, -, rfl⟩ | ⟨_, -, rfl⟩
    · exact hstate
    · exact hsession
  have hvalues : ∀ p ∈ (s.browsers i).pairs, isCookieText p.2 := by
    intro p hp
    rw [Browser.pairs, List.mem_append, List.mem_map, List.mem_map] at hp
    rcases hp with ⟨t, ht, rfl⟩ | ⟨t, ht, rfl⟩
    · exact h.token _ _ (h.state i t (Option.mem_toList.1 ht))
    · exact h.token _ _ (h.session i t (Option.mem_toList.1 ht))
  rw [Browser.header, cookieValue_cookieHeader hstate.1 hnames hvalues,
    cookieValue_cookieHeader hsession.1 hnames hvalues, Browser.pairs]
  rcases (s.browsers i).state with _ | t
  · rcases (s.browsers i).session with _ | u
    · exact ⟨rfl, rfl⟩
    · exact ⟨rfl, rfl⟩
  · rcases (s.browsers i).session with _ | u
    · exact ⟨rfl, rfl⟩
    · exact ⟨rfl, rfl⟩

/-- A browser has the cookies that it had, and the token that was set. -/
theorem accept_cookies {b : Browser} {cookies : List Cookie} {token : String}
    (h : ∀ c ∈ cookies, c.maxAge = 0 ∨ c.value = token) (t : String) :
    ((cookies.foldl Browser.accept b).state = some t → b.state = some t ∨ t = token) ∧
      ((cookies.foldl Browser.accept b).session = some t → b.session = some t ∨ t = token) := by
  have hone {b : Browser} {c : Cookie} (hc : c.maxAge = 0 ∨ c.value = token) :
      ((b.accept c).state = some t → b.state = some t ∨ t = token) ∧
        ((b.accept c).session = some t → b.session = some t ∨ t = token) := by
    have hvalue (h : (if c.maxAge = 0 then none else some c.value) = some t) : t = token := by
      split_ifs at h with hzero
      exact (Option.some.inj h).symm.trans (hc.resolve_left hzero)
    rw [Browser.accept]
    by_cases hname : c.name = stateCookieName
    · rw [if_pos hname]
      exact ⟨fun h => .inr (hvalue h), Or.inl⟩
    · rw [if_neg hname]
      exact ⟨Or.inl, fun h => .inr (hvalue h)⟩
  induction cookies generalizing b with
  | nil => exact ⟨Or.inl, Or.inl⟩
  | cons c cookies ih =>
    obtain ⟨hstate, hsession⟩ := hone (b := b) (h c List.mem_cons_self)
    obtain ⟨hstates, hsessions⟩ := @ih (b.accept c) fun d hd => h d (List.mem_cons_of_mem _ hd)
    exact ⟨fun ht => (hstates ht).elim hstate .inr, fun ht => (hsessions ht).elim hsession .inr⟩

/-! ## What a request does -/

variable (config) in
/-- A session is opened only for whose the code is, and only where the token that comes with it is
    the browser's own. -/
theorem githubCallback_spec (exchange : String → Option (UInt64 × String)) (a : Accounts)
    (code state header : Option String) (sid : String) (now : Int64) :
    (∀ c ∈ (githubCallback config exchange a code state header sid now).1.cookies,
      c.maxAge = 0 ∨ c.value = sid) ∧
    ∀ t row, (githubCallback config exchange a code state header sid now).2.sessions.lookup t =
        some row → a.sessions.lookup t = some row ∨ t = sid ∧ ∃ c r user, code = some c ∧
          state = some r ∧ cookieValue header stateCookieName = some r ∧
          exchange c = some user ∧ row.uid = user.1.toInt64 := by
  have hrefused (auth : String) : (∀ c ∈ (redirectClearingState config auth).cookies,
      c.maxAge = 0 ∨ c.value = sid) := by
    intro c hc
    rw [List.mem_singleton.1 hc]
    exact .inl rfl
  rw [githubCallback.eq_def]
  rcases code with _ | code
  · exact ⟨hrefused _, fun _ _ h => .inl h⟩
  rcases state with _ | state
  · exact ⟨hrefused _, fun _ _ h => .inl h⟩
  rcases cookieValue header stateCookieName with _ | expected
  · exact ⟨hrefused _, fun _ _ h => .inl h⟩
  dsimp only
  by_cases heq : constantTimeEq (asBytes state) (asBytes expected) = true
  swap
  · rw [if_pos heq]
    exact ⟨hrefused _, fun _ _ h => .inl h⟩
  rw [if_neg (not_not.2 heq)]
  obtain rfl := asBytes_injective (constantTimeEq_iff.1 heq)
  rcases config.githubClientId with _ | clientId
  · exact ⟨hrefused _, fun _ _ h => .inl h⟩
  rcases config.githubClientSecret with _ | clientSecret
  · exact ⟨hrefused _, fun _ _ h => .inl h⟩
  rcases hexchange : exchange code with _ | user
  · exact ⟨hrefused _, fun _ _ h => .inl h⟩
  dsimp only
  rw [openSession, Accounts.signInGithub]
  split_ifs with htaken
  · exact ⟨hrefused _, fun _ _ h => .inl h⟩
  refine ⟨?_, fun t row hrow => ?_⟩
  · intro c hc
    rcases List.mem_pair.1 hc with rfl | rfl
    · exact .inr rfl
    · exact .inl rfl
  · by_cases ht : t = sid
    · subst ht
      have hrow : (a.sessions.insert t _).lookup t = some row := hrow
      rw [AList.lookup_insert] at hrow
      exact .inr ⟨rfl, code, state, user, rfl, rfl, rfl, hexchange, by rw [← Option.some.inj hrow]⟩
    · have hrow : (a.sessions.insert sid _).lookup t = some row := hrow
      rw [AList.lookup_insert_ne ht] at hrow
      exact .inl hrow

/-- A token is drawn for a browser. -/
theorem Sound.answer (h : Sound person honest s) {i : ℕ} {bytes : List UInt8}
    (hfresh : s.drawn.lookup (randomToken bytes) = none) {cookies : List Cookie} {a : Accounts}
    (hcookies : ∀ c ∈ cookies, c.maxAge = 0 ∨ c.value = randomToken bytes)
    (ha : ∀ t row, a.sessions.lookup t = some row → s.accounts.sessions.lookup t = some row ∨
      t = randomToken bytes ∧ Theirs person honest i row.uid) :
    Sound person honest (s.answer i (randomToken bytes) cookies a) := by
  have hnew : ((randomToken bytes, i) :: s.drawn).lookup (randomToken bytes) = some i := by
    rw [List.lookup_cons, beq_self_eq_true]
  constructor
  case token =>
    intro t j ht
    have ht : ((randomToken bytes, i) :: s.drawn).lookup t = some j := ht
    by_cases he : t = randomToken bytes
    · rw [he]
      exact isCookieText_randomToken bytes
    · rw [List.lookup_cons, beq_false_of_ne he] at ht
      exact h.token t j ht
  case state =>
    intro j t ht
    have ht : (setAt s.browsers i (cookies.foldl Browser.accept (s.browsers i)) j).state = some t :=
      ht
    by_cases hj : j = i
    · subst hj
      rw [setAt_self] at ht
      rcases (accept_cookies hcookies t).1 ht with ht | rfl
      · exact lookup_grown hfresh (h.state j t ht)
      · exact hnew
    · rw [setAt_of_ne _ _ hj] at ht
      exact lookup_grown hfresh (h.state j t ht)
  case session =>
    intro j t ht
    have ht : (setAt s.browsers i (cookies.foldl Browser.accept (s.browsers i)) j).session =
      some t := ht
    by_cases hj : j = i
    · subst hj
      rw [setAt_self] at ht
      rcases (accept_cookies hcookies t).2 ht with ht | rfl
      · exact lookup_grown hfresh (h.session j t ht)
      · exact hnew
    · rw [setAt_of_ne _ _ hj] at ht
      exact lookup_grown hfresh (h.session j t ht)
  case opened =>
    intro t row hrow
    rcases ha t row hrow with hold | ⟨rfl, htheirs⟩
    · obtain ⟨j, hj, htheirs⟩ := h.opened t row hold
      exact ⟨j, lookup_grown hfresh hj, htheirs⟩
    · exact ⟨i, hnew, htheirs⟩
  case returns => exact h.returns

/-- A browser arrives with a code of the person in front of it, or with one that somebody who sends
    what they like may have, and then is in their hands. -/
theorem Sound.arrive (h : Sound person honest s) {i : ℕ} {code state header : Option String}
    {bytes : List UInt8}
    (hcode : ∀ c t, code = some c → state = some t → cookieValue header stateCookieName = some t →
      ∀ k, s.codes.lookup c = some k → k = i ∨ honest k = false ∧ honest i = false)
    (hs : s.arrive config person i code state header (randomToken bytes) = some s') :
    Sound person honest s' := by
  rw [State.arrive] at hs
  split_ifs at hs with hdrawn
  rw [← Option.some.inj hs]
  obtain ⟨hcookies, hsessions⟩ := githubCallback_spec config (s.exchange person) s.accounts
    code state header (randomToken bytes) s.now
  refine h.answer (Option.not_isSome_iff_eq_none.1 hdrawn) hcookies fun t row hrow => ?_
  rcases hsessions t row hrow with hold | ⟨rfl, c, r, user, hc, hr, hcookie, hexchange, huid⟩
  · exact .inl hold
  · rw [State.exchange] at hexchange
    split_ifs at hexchange with hrefused
    obtain ⟨k, hk, rfl⟩ := Option.map_eq_some_iff.1 hexchange
    exact .inr ⟨rfl, k, huid, hcode c r hc hr hcookie k hk⟩

theorem Sound.with_accounts (h : Sound person honest s) {a : Accounts}
    (ha : ∀ t row, a.sessions.lookup t = some row → s.accounts.sessions.lookup t = some row) :
    Sound person honest { s with accounts := a } :=
  { h with opened := fun t row hrow => h.opened t row (ha t row hrow) }

theorem Sound.with_browser (h : Sound person honest s) {i : ℕ} {b : Browser}
    (hstate : ∀ t, b.state = some t → (s.browsers i).state = some t)
    (hsession : ∀ t, b.session = some t → (s.browsers i).session = some t) :
    Sound person honest { s with browsers := setAt s.browsers i b } where
  token := h.token
  state j t :=
    forall_setAt (P := fun j (b : Browser) => b.state = some t → s.drawn.lookup t = some j)
      (fun j _ => h.state j t) (fun ht => h.state i t (hstate t ht)) j
  session j t :=
    forall_setAt (P := fun j (b : Browser) => b.session = some t → s.drawn.lookup t = some j)
      (fun j _ => h.session j t) (fun ht => h.session i t (hsession t ht)) j
  opened := h.opened
  returns := h.returns

theorem lookup_of_erase {m : AList fun _ : String => Session} {sid t : String} {row : Session}
    (h : (m.erase sid).lookup t = some row) : m.lookup t = some row := by
  by_cases ht : t = sid
  · rw [ht, AList.lookup_erase] at h
    cases h
  · rwa [AList.lookup_erase_ne ht] at h

/-- Who a request comes from is whose session it comes with, and reading that opens none. -/
theorem identityIn_spec (a : Accounts) (header : Option String) (now : Int64) :
    (∀ identity, (identityIn config a header now).1 = some identity → ∃ sid row,
      cookieValue header cookieName = some sid ∧ a.sessions.lookup sid = some row ∧
        identity.uid = row.uid) ∧
    ∀ t row, (identityIn config a header now).2.sessions.lookup t = some row →
      a.sessions.lookup t = some row := by
  rw [identityIn, Accounts.resolveIdentity]
  simp only [Option.isSome_none, Bool.false_eq_true, false_and, if_false]
  rcases cookieValue header cookieName with _ | sid
  · exact ⟨fun _ h => absurd h.symm (Option.some_ne_none _), fun _ _ h => h⟩
  dsimp only
  rw [Accounts.sessionIdentity]
  rcases hrow : a.sessions.lookup sid with _ | row
  · exact ⟨fun _ h => absurd h.symm (Option.some_ne_none _), fun _ _ h => h⟩
  dsimp only
  rcases hidentity : a.identityOf row.uid with _ | identity
  · exact ⟨fun _ h => absurd h.symm (Option.some_ne_none _), fun _ _ h => h⟩
  dsimp only
  obtain ⟨user, -, rfl⟩ := Option.map_eq_some_iff.1 hidentity
  split_ifs with hlive
  · refine ⟨fun found h => ⟨sid, row, rfl, hrow, ?_⟩, fun _ _ h => h⟩
    rw [← Option.some.inj h]
  · exact ⟨fun _ h => h.elim, fun _ _ => lookup_of_erase⟩

theorem sessions_setRole {a a' : Accounts} {account : Int64} {role : String}
    (h : (a.setRole account role).toOption = some a') : a'.sessions = a.sessions := by
  rw [Accounts.setRole] at h
  split_ifs at h with hreserved
  · cases h
  rcases hparsed : Role.parse role with _ | r
  all_goals rw [hparsed] at h
  · cases h
  rcases huser : a.users.lookup account with _ | user
  all_goals dsimp only at h; rw [huser] at h
  · cases h
  · rw [← Option.some.inj h]

theorem sound_init (h : (system config person honest).init s) : Sound person honest s := by
  obtain ⟨hbrowsers, hsessions, hdrawn, -, hreturns⟩ := h
  constructor
  case token =>
    intro t i ht
    rw [hdrawn] at ht
    cases ht
  case state =>
    intro i t ht
    rw [hbrowsers] at ht
    cases ht
  case session =>
    intro i t ht
    rw [hbrowsers] at ht
    cases ht
  case opened =>
    intro t row hrow
    rw [hsessions] at hrow
    cases hrow
  case returns =>
    rw [hreturns]
    exact fun _ _ _ h => absurd h List.not_mem_nil

/-- What is no secret of others is of somebody who sends what they like. -/
theorem not_honest_of_not_secret {code state : Option String}
    (hsecret : ¬ s.secret honest code state = true) :
    (∀ c k, code = some c → s.codes.lookup c = some k → honest k = false) ∧
      ∀ t k, state = some t → s.drawn.lookup t = some k → honest k = false := by
  rw [State.secret, Bool.or_eq_true, not_or] at hsecret
  constructor
  · rintro c k rfl hk
    rw [Option.bind_some, hk] at hsecret
    exact Bool.eq_false_iff.2 hsecret.1
  · rintro t k rfl hk
    rw [Option.bind_some, hk] at hsecret
    exact Bool.eq_false_iff.2 hsecret.2

theorem Sound.step (h : Sound person honest s) (a : Act)
    (hs : step config person honest s a = some s') : Sound person honest s' := by
  cases a with
  | login i bytes =>
    have hs : s.login config i (randomToken bytes) = some s' := hs
    rw [State.login] at hs
    split_ifs at hs with hdrawn
    rw [← Option.some.inj hs]
    refine h.answer (Option.not_isSome_iff_eq_none.1 hdrawn) (fun c hc => ?_) fun _ _ h => .inl h
    rcases hclient : config.githubClientId with _ | clientId
    all_goals rw [githubLogin, hclient] at hc
    · exact absurd hc List.not_mem_nil
    · rw [List.mem_singleton.1 hc]
      exact .inr rfl
  | agree i code state =>
    have hs : (if (s.codes.lookup code).isSome then none else some { s with
        codes := (code, i) :: s.codes, returns := (i, code, state) :: s.returns }) = some s' := hs
    split_ifs at hs with hgiven
    rw [← Option.some.inj hs]
    refine { h with returns := fun j c t hmem => ?_ }
    rcases List.mem_cons.1 hmem with he | hmem
    · obtain ⟨rfl, rfl, rfl⟩ : j = i ∧ c = code ∧ t = state := by simpa using he
      exact List.lookup_cons_self
    · exact lookup_grown (Option.not_isSome_iff_eq_none.1 hgiven) (h.returns j c t hmem)
  | refuse codes =>
    rw [← Option.some.inj hs]
    exact { h with }
  | follow i code state bytes =>
    have hs : (if (i, code, state) ∈ s.returns then s.arrive config person i (some code)
        (some state) (s.browsers i).header (randomToken bytes) else none) = some s' := hs
    split_ifs at hs with hreturned
    refine h.arrive (fun c t hc _ _ k hk => .inl ?_) hs
    rw [← Option.some.inj hc, h.returns i code state hreturned] at hk
    exact (Option.some.inj hk).symm
  | lure i code state bytes =>
    have hs : (if s.secret honest code state then none else s.arrive config person i code state
        (s.browsers i).header (randomToken bytes)) = some s' := hs
    split_ifs at hs with hsecret
    obtain ⟨hcodes, htokens⟩ := not_honest_of_not_secret hsecret
    refine h.arrive (fun c t hc ht hcookie k hk => .inr ⟨hcodes c k hc hk, ?_⟩) hs
    -- the token would have to be the browser's own, which nobody else knows
    rw [(h.cookies i).1] at hcookie
    exact htokens t i ht (h.state i t hcookie)
  | forge i code state header bytes =>
    have hs : (if honest i ∨ s.secret honest code state then none else
        s.arrive config person i code state header (randomToken bytes)) = some s' := hs
    split_ifs at hs with hsecret
    rw [not_or] at hsecret
    refine h.arrive (fun c t hc _ _ k hk => .inr ⟨?_, Bool.eq_false_iff.2 hsecret.1⟩) hs
    exact (not_honest_of_not_secret hsecret.2).1 c k hc hk
  | logout i =>
    rw [← Option.some.inj hs]
    have hquiet : Sound person honest
        { s with accounts := (logout config s.accounts (s.browsers i).header).2 } := by
      refine h.with_accounts fun t row hrow => ?_
      rcases hsid : cookieValue (s.browsers i).header cookieName with _ | sid
      all_goals rw [logout, hsid] at hrow
      · exact hrow
      · exact lookup_of_erase hrow
    exact hquiet.with_browser (fun _ ht => ht) fun _ ht => absurd ht.symm (Option.some_ne_none _)
  | visit header =>
    rw [← Option.some.inj hs]
    exact h.with_accounts (identityIn_spec s.accounts header s.now).2
  | forget i state session =>
    rw [← Option.some.inj hs]
    have hkept {v : Option String} {gone : Bool} {t : String}
        (ht : (if gone = true then none else v) = some t) : v = some t := by
      split_ifs at ht
      exact ht
    exact h.with_browser (fun _ => hkept) fun _ => hkept
  | setRole account role =>
    obtain ⟨a, ha, rfl⟩ := Option.map_eq_some_iff.1 hs
    refine h.with_accounts fun t row hrow => ?_
    rwa [sessions_setRole ha] at hrow
  | tick now =>
    rw [← Option.some.inj hs]
    exact { h with }

theorem sound_of_reach (h : (system config person honest).Reachable s) : Sound person honest s :=
  h.invariant (fun _ => sound_init) fun _ a _ hP _ hs => hP.step a hs

/-- In every state reached, who a browser is signed in as is the person in front of it, but that
    those who send what they like may let each other in; and a request that comes with no session
    of a browser that does what it is asked is never taken for one of the person in front of it. -/
theorem signed_in (h : (system config person honest).Reachable s) {header : Option String}
    {identity : Identity} (hid : (identityIn config s.accounts header s.now).1 = some identity) :
    (∀ i, header = (s.browsers i).header → Theirs person honest i identity.uid) ∧
      (s.secret honest none (cookieValue header cookieName) = false →
        ∃ k, honest k = false ∧ identity.uid = uid person k) := by
  have hsound := sound_of_reach h
  obtain ⟨sid, row, hcookie, hrow, huid⟩ := (identityIn_spec _ _ _).1 identity hid
  obtain ⟨j, hdrawn, htheirs⟩ := hsound.opened sid row hrow
  rw [huid]
  constructor
  · rintro i rfl
    rw [(hsound.cookies i).2] at hcookie
    rw [hsound.session i sid hcookie] at hdrawn
    rwa [Option.some.inj hdrawn]
  · intro hsecret
    have hj : honest j = false :=
      (not_honest_of_not_secret (Bool.eq_false_iff.1 hsecret)).2 sid j hcookie hdrawn
    obtain ⟨k, hk, rfl | ⟨hhonest, -⟩⟩ := htheirs
    · exact ⟨k, hj, hk⟩
    · exact ⟨k, hhonest, hk⟩

end Runs

/-! ## A run -/

def plainConfig : Config where
  debugToken := none
  adminToken := none
  debugGithubUids := []
  adminGithubUids := []
  githubClientId := some "mirror"
  githubClientSecret := some "hush"
  mirrorBase := "https://mirror.example"
  cookieSecure := true

/-- The keeper of a pack has the first browser, and a stranger all others. -/
def people (i : ℕ) : UInt64 × String := if i = 0 then (7, "keeper") else (9, "stranger")

def isKeeper (i : ℕ) : Bool := i = 0

def unvisited : State where
  accounts := .empty
  browsers := fun _ => .empty
  now := 1000
  drawn := []
  codes := []
  refused := []
  returns := []

/-- The stranger has the keeper's browser come back with a code of their own, which signs nobody
    in; then the keeper signs in. -/
def lured : List Act :=
  [.login 0 [1], .login 1 [2], .agree 1 "theirs" "02", .lure 0 (some "theirs") (some "02") [3],
    .login 0 [4], .agree 0 "own" "04", .follow 0 "own" "04" [5]]

theorem signed_in_lured : ∃ s, (system plainConfig people isKeeper).Reachable s ∧
    (identityIn plainConfig s.accounts (s.browsers 0).header s.now).1 =
      some ⟨7, "keeper", .member⟩ ∧ Theirs people isKeeper 0 7 := by
  have hrun : (((system plainConfig people isKeeper).run unvisited lured).any fun s =>
      (identityIn plainConfig s.accounts (s.browsers 0).header s.now).1 =
        some ⟨7, "keeper", .member⟩) = true := by
    decide +kernel
  obtain ⟨s, hs, hid⟩ := (Option.any_eq_true _ _).1 hrun
  have hreach : (system plainConfig people isKeeper).Reachable s :=
    System.Reach.run (.init ⟨fun _ => rfl, rfl, rfl, rfl, rfl⟩) hs
  have hid := of_decide_eq_true hid
  exact ⟨s, hreach, hid, (signed_in hreach hid).1 0 rfl⟩

end SignIn

end Smrt
