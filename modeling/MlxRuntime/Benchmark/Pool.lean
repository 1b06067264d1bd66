import MlxRuntime.Benchmark.Consumed

/-!
# The connections of the load generator

`_AsyncHttpPool.post_json` takes a slot of a semaphore, takes a connection from the pool or
makes one, lets the connection send the request and read the response within a time limit,
and gives the connection back if it can be used again and closes it otherwise.  Calls run
side by side, and each is stopped wherever it waits.

A connection is two streams of bytes.  The server takes the bytes of requests in any portions,
answers a request that it has taken whole with one response, and its bytes arrive in any
portions; the stream ends, or the connection is lost, at any byte.

The lock is free at every point where a call waits, and is left out.

## Main definitions

* `Pool`, `Pool.step` — calls, connections and the server, in any order of steps.
* `Pool.Inv` — what holds in every state.
* `Settled`, `Flushed` — a connection whose close does not wait for the server.
* `attributes_every_byte` — every answer is that of the own response, every slot comes back.
-/

namespace MlxRuntime.Benchmark

open Http

variable {F : Type}

/-- The two streams of a connection that is open. -/
structure Link where
  reader : StreamReader := {}
  /-- The bytes of requests that the server has not taken. -/
  unsent : ℕ := 0
  /-- The calls whose requests are written and not answered. -/
  asked : List ℕ := []
  /-- What the server has sent and what has not arrived. -/
  coming : Bytes := []

/-- Where `_HttpConnection.post_json` is. -/
inductive Stage (F : Type)
  | connecting
  | writing
  | draining
  | reading (phase : Phase F)
  | returned (answer : Answer F) (reusable : Bool)

/-- Where `_AsyncHttpPool.post_json` is: before the semaphore, within the time limit, in
`connection.close()`, or over. -/
inductive CallState (F : Type)
  | waiting
  | holds (k : ℕ) (stage : Stage F)
  | closing (k : ℕ) (outcome : Except Raised (Answer F))
  | done (outcome : Except Raised (Answer F))

/-- The connection that a call uses. -/
def CallState.connection : CallState F → Option ℕ
  | .holds k _ | .closing k _ => some k
  | .waiting | .done _ => none

/-- A call. -/
structure Call (F : Type) where
  streaming : Bool
  state : CallState F := .waiting
  /-- What the server has answered to the request of this call. -/
  reply : Option Reply := none

/-- The pool, with the calls and the connections that were made. -/
structure Pool (F : Type) where
  /-- The slots of the semaphore that are free. -/
  free : ℕ
  available : List ℕ := []
  /-- `_all`; a connection that is not open has no reader. -/
  links : List (Option Link) := []
  calls : List (Call F) := []

/-- What a call can do next, with what comes from outside. -/
inductive CallStep
  | acquire
  | connected
  | refused (raised : Raised)
  | write (size : ℕ)
  | drained
  | read
  | timeout
  | finish
  | closed

/-- What the server and the network do to a connection. -/
inductive LinkStep
  | take (n : ℕ)
  | deliver (n : ℕ)
  | shut
  | lose (raised : Raised)

/-- What can happen. -/
inductive PoolStep
  | submit (streaming : Bool)
  | call (c : ℕ) (op : CallStep)
  | link (k : ℕ) (op : LinkStep)
  | answer (k : ℕ) (reply : Reply)

/-- `wait_closed` does not wait for the server: nothing is left to send, the connection is
lost, or the shutdown of TLS has a time limit. -/
def Link.Settled (tls : Bool) (link : Link) : Prop :=
  link.unsent = 0 ∨ link.reader.lost.isSome ∨ tls

instance (tls : Bool) : DecidablePred (Link.Settled tls) := fun _ =>
  inferInstanceAs (Decidable (_ ∨ _ ∨ _))

/-- A step of the server or the network; `none` if it cannot happen. -/
def Link.step (link : Link) : LinkStep → Option Link
  | .take n =>
      if 0 < n ∧ n ≤ link.unsent ∧ link.reader.lost = none then
        some { link with unsent := link.unsent - n }
      else none
  | .deliver n =>
      if 0 < n ∧ n ≤ link.coming.length ∧ link.reader.eof = false ∧ link.reader.lost = none then
        some { link with
          reader.buffer := link.reader.buffer ++ link.coming.take n
          coming := link.coming.drop n }
      else none
  | .shut => some { link with reader.eof := true }
  | .lose raised => some { link with reader.lost := some raised }

namespace Pool

/-- The link of a connection that is open. -/
def link? (s : Pool F) (k : ℕ) : Option Link := s.links[k]?.join

/-- The call goes on. -/
def setCall (s : Pool F) (c : ℕ) (call : Call F) (state : CallState F) : Pool F :=
  { s with calls := s.calls.set c { call with state } }

def setLink (s : Pool F) (k : ℕ) (link : Option Link) : Pool F :=
  { s with links := s.links.set k link }

/-- The call has a slot, and takes a connection. -/
def acquire (s : Pool F) (c : ℕ) (call : Call F) : Pool F :=
  let s := { s with free := s.free - 1 }
  match s.available.getLast? with
  | some k =>
      let stage := if (s.link? k).isSome then .writing else .connecting
      { s with available := s.available.dropLast }.setCall c call (.holds k stage)
  | none =>
      { s with links := s.links ++ [none] }.setCall c call (.holds s.links.length .connecting)

/-- The request is handed to the transport. -/
def write (s : Pool F) (c : ℕ) (call : Call F) (k : ℕ) (link : Link) (size : ℕ) : Pool F :=
  let link := { link with unsent := link.unsent + size, asked := link.asked ++ [c] }
  (s.setLink k (some link)).setCall c call (.holds k .draining)

/-- The high-water mark of a transport. -/
def highWater : ℕ := 65536

/-- `drain()` returns, or raises; `none` is to wait. -/
def drained (s : Pool F) (c : ℕ) (call : Call F) (k : ℕ) (link : Link) : Option (Pool F) :=
  match link.reader.lost with
  | some raised => some (s.setCall c call (.closing k (.error raised)))
  | none =>
      if link.unsent ≤ highWater then some (s.setCall c call (.holds k (.reading .statusLine)))
      else none

/-- What the reader awaits is there. -/
def read (py : Python F) (s : Pool F) (c : ℕ) (call : Call F) (k : ℕ) (link : Link)
    (phase : Phase F) : Option (Pool F) :=
  (link.reader.answer phase.awaits).map fun (result, buffer) =>
    (s.setLink k (some { link with reader.buffer := buffer })).setCall c call <|
      match result.bind (phase.resume py call.streaming) with
      | .error raised => .closing k (.error raised)
      | .ok (.inl phase) => .holds k (.reading phase)
      | .ok (.inr (answer, reusable)) => .holds k (.returned answer reusable)

/-- What follows the time limit: the connection goes back, and the slot, or is closed. -/
def finish (s : Pool F) (c : ℕ) (call : Call F) (k : ℕ) (answer : Answer F) (reusable : Bool) :
    Pool F :=
  if reusable then
    { s with available := s.available ++ [k], free := s.free + 1 }.setCall c call
      (.done (.ok answer))
  else s.setCall c call (.closing k (.ok answer))

/-- `connection.close()` has returned. -/
def closed (s : Pool F) (c : ℕ) (call : Call F) (k : ℕ) (outcome : Except Raised (Answer F)) :
    Pool F :=
  { s.setLink k none with free := s.free + 1 }.setCall c call (.done outcome)

/-- A step of a call; `none` if the call is not where it can make it. -/
def callStep (py : Python F) (tls : Bool) (s : Pool F) (c : ℕ) (call : Call F) :
    CallStep → CallState F → Option (Pool F)
  | .acquire, .waiting => if 0 < s.free then some (s.acquire c call) else none
  | .connected, .holds k .connecting =>
      some ((s.setLink k (some {})).setCall c call (.holds k .writing))
  | .refused raised, .holds k .connecting =>
      some (s.setCall c call (.closing k (.error raised)))
  | .write size, .holds k .writing =>
      if 0 < size then (s.link? k).map fun link => s.write c call k link size else none
  | .drained, .holds k .draining => (s.link? k).bind fun link => s.drained c call k link
  | .read, .holds k (.reading phase) => (s.link? k).bind fun link => s.read py c call k link phase
  | .timeout, .holds k _ => some (s.setCall c call (.closing k (.error ⟨"TimeoutError", ""⟩)))
  | .finish, .holds k (.returned answer reusable) => some (s.finish c call k answer reusable)
  | .closed, .closing k outcome =>
      if ∀ link ∈ s.link? k, link.Settled tls then some (s.closed c call k outcome) else none
  | _, _ => none

/-- The server answers the first request that it has taken and not answered. -/
def answer (s : Pool F) (k : ℕ) (reply : Reply) (link : Link) : Option (Pool F) :=
  match link.asked with
  | [] => none
  | c :: asked =>
      if link.unsent = 0 then
        (s.calls[c]?).map fun call =>
          { s.setLink k (some { link with asked, coming := link.coming ++ reply.1.bytes }) with
            calls := s.calls.set c { call with reply := some reply } }
      else none

def step? (py : Python F) (tls : Bool) (s : Pool F) : PoolStep → Option (Pool F)
  | .submit streaming => some { s with calls := s.calls ++ [{ streaming }] }
  | .call c op => (s.calls[c]?).bind fun call => s.callStep py tls c call op call.state
  | .link k op =>
      (s.link? k).bind fun link => (link.step op).map fun link => s.setLink k (some link)
  | .answer k reply => (s.link? k).bind (s.answer k reply)

/-- A step, and whether it could happen. -/
def step (py : Python F) (tls : Bool) (s : Pool F) (op : PoolStep) : Bool × Pool F :=
  ((s.step? py tls op).isSome, (s.step? py tls op).getD s)

/-- The link that a call uses has this property. -/
def OnLink (s : Pool F) (c : ℕ) (p : Link → Prop) : Prop :=
  ∀ call ∈ s.calls[c]?, ∀ k ∈ call.state.connection, ∀ link ∈ s.link? k, p link

instance (s : Pool F) (c : ℕ) (p : Link → Prop) [DecidablePred p] : Decidable (s.OnLink c p) :=
  inferInstanceAs (Decidable (∀ call ∈ s.calls[c]?, ∀ k ∈ call.state.connection,
    ∀ link ∈ s.link? k, p link))

/-- No call reaches its time limit, or the end of the stream, while the server has still to take
bytes of its request. -/
def Flushed (tls : Bool) (s : Pool F) : PoolStep → Prop
  | .call c .timeout => s.OnLink c fun link => link.Settled tls
  | .call c .read => s.OnLink c fun link => link.reader.eof → link.Settled tls
  | _ => True

instance (tls : Bool) (s : Pool F) : DecidablePred (Flushed tls s) := fun op => by
  cases op with
  | call c op =>
      cases op with
      | timeout => exact inferInstanceAs (Decidable (s.OnLink c fun link => link.Settled tls))
      | read =>
          exact inferInstanceAs (Decidable (s.OnLink c fun link =>
            link.reader.eof = true → link.Settled tls))
      | _ => exact .isTrue trivial
  | _ => exact .isTrue trivial

/-- `_AsyncHttpPool(base_url, maximum)`. -/
def init (F : Type) (maximum : ℕ) : Pool F := { free := maximum }

/-- The connections in use. -/
def inUse (s : Pool F) : ℕ := s.calls.countP fun call => call.state.connection.isSome

end Pool

/-! ## The invariant -/

/-- Nothing is asked and nothing is left to read. -/
structure Link.Idle (link : Link) : Prop where
  asked : link.asked = []
  unsent : link.unsent = 0
  buffer : link.reader.buffer = []
  coming : link.coming = []

/-- The answer is that of the response to the request of the call. -/
def Call.Answered (py : Python F) (call : Call F) (answer : Answer F) : Prop :=
  ∃ reply, call.reply = some reply ∧ Attributed py call.streaming reply.1 answer

/-- The request of call `c` is not answered yet, or the reader keeps to its response. -/
def Exchange (py : Python F) (c : ℕ) (call : Call F) (phase : Phase F) (link : Link) : Prop :=
  (link.asked = [c] ∧ call.reply = none ∧ phase = .statusLine ∧ link.reader.buffer = [] ∧
    link.coming = []) ∨
  (link.asked = [] ∧ link.unsent = 0 ∧ ∃ reply, call.reply = some reply ∧
    Tracks py call.streaming reply.1 phase link.reader link.coming)

/-- What holds of the connection of a call, and of what was answered to it. -/
def Stage.Fits (py : Python F) (c : ℕ) (call : Call F) (link : Option Link) : Stage F → Prop
  | .connecting => link = none ∧ call.reply = none
  | .writing => call.reply = none ∧ ∃ l, link = some l ∧ l.Idle
  | .draining => ∃ l, link = some l ∧ Exchange py c call .statusLine l
  | .reading phase => ∃ l, link = some l ∧ Exchange py c call phase l
  | .returned answer reusable =>
      call.Answered py answer ∧
        ∃ l, link = some l ∧ l.asked = [] ∧ l.unsent = 0 ∧ (reusable → l.Idle)

/-- What fits a state; if `strict`, a connection that is being closed is settled. -/
def CallState.Fits (py : Python F) (tls : Bool) (strict : Prop) (c : ℕ) (call : Call F)
    (link : Option Link) : CallState F → Prop
  | .waiting => call.reply = none
  | .holds _ stage => stage.Fits py c call link
  | .closing _ outcome =>
      (∀ answer, outcome = .ok answer → call.Answered py answer ∧ ∀ l ∈ link, l.asked = []) ∧
        (strict → ∀ l ∈ link, l.Settled tls)
  | .done outcome => ∀ answer, outcome = .ok answer → call.Answered py answer

namespace Pool

variable {py : Python F} {tls : Bool} {strict : Prop} {maximum : ℕ} {s s' : Pool F} {c k : ℕ}
  {call : Call F}

/-- What holds in every state. -/
structure Inv (py : Python F) (tls : Bool) (strict : Prop) (maximum : ℕ) (s : Pool F) :
    Prop where
  slots : s.free + s.inUse = maximum
  nodup : s.available.Nodup
  pooled : ∀ k ∈ s.available, ∃ link, s.link? k = some link ∧ link.Idle
  made : ∀ (c : ℕ) (call : Call F) (k : ℕ), s.calls[c]? = some call →
    call.state.connection = some k → k < s.links.length
  apart : ∀ (c : ℕ) (call : Call F) (k : ℕ), s.calls[c]? = some call →
    call.state.connection = some k → k ∉ s.available
  alone : ∀ (c : ℕ) (call : Call F) (c' : ℕ) (call' : Call F) (k : ℕ), s.calls[c]? = some call →
    s.calls[c']? = some call' → call.state.connection = some k →
    call'.state.connection = some k → c' = c
  fits : ∀ (c : ℕ) (call : Call F), s.calls[c]? = some call →
    call.state.Fits py tls strict c call (call.state.connection.bind s.link?)
  asked : ∀ k link, s.link? k = some link → ∀ c ∈ link.asked,
    ∃ call : Call F, s.calls[c]? = some call ∧ call.state.connection = some k

/-- A connection that is open was made. -/
theorem lt_of_link? {link : Link} (h : s.link? k = some link) : k < s.links.length := by
  by_contra hge
  rw [link?, List.getElem?_eq_none (not_lt.mp hge)] at h
  cases h

theorem link?_setLink_self (link : Option Link) (hk : k < s.links.length) :
    (s.setLink k link).link? k = link := by
  rw [link?, setLink]
  dsimp only
  rw [List.getElem?_set_self hk]
  rfl

theorem link?_setLink_of_ne {link : Option Link} {j : ℕ} (h : j ≠ k) :
    (s.setLink k link).link? j = s.link? j := by
  rw [link?, link?, setLink]
  dsimp only
  rw [List.getElem?_set_ne h.symm]

/-- The calls in use when one of them goes on. -/
theorem countP_set {calls : List (Call F)} (call' : Call F) (p : Call F → Bool)
    (hc : calls[c]? = some call) :
    (calls.set c call').countP p + (if p call then 1 else 0) =
      calls.countP p + if p call' then 1 else 0 := by
  induction calls generalizing c with
  | nil => cases hc
  | cons first calls ih =>
      cases c with
      | zero =>
          obtain rfl := Option.some.inj hc
          rw [List.set_cons_zero, List.countP_cons, List.countP_cons]
          omega
      | succ c =>
          have hrest := ih hc
          rw [List.set_cons_succ, List.countP_cons, List.countP_cons]
          omega

/-- **A step of a call** that leaves the other connections alone: the call keeps to its
connection, takes one that is free, or leaves its own. -/
theorem Inv.advance (h : s.Inv py tls strict maximum) {call' : Call F}
    (hc : s.calls[c]? = some call)
    (hbefore : call.state.connection = some k ∨
      call.state.connection = none ∧ (k ∈ s.available ∨ s.links.length ≤ k))
    (hafter : ∀ j, call'.state.connection = some j → j = k)
    (hcalls : s'.calls = s.calls.set c call')
    (hlinks : ∀ j ≠ k, s'.link? j = s.link? j) (hlength : s.links.length ≤ s'.links.length)
    (hk : k < s'.links.length)
    (hslots : s'.free + (if call'.state.connection.isSome then 1 else 0) =
      s.free + if call.state.connection.isSome then 1 else 0)
    (hnodup : s'.available.Nodup)
    (hpooled : ∀ j ∈ s'.available, j ∈ s.available ∧ j ≠ k ∨
      j = k ∧ call'.state.connection = none ∧ ∃ link, s'.link? k = some link ∧ link.Idle)
    (hfits : call'.state.Fits py tls strict c call' (call'.state.connection.bind s'.link?))
    (hasked : ∀ link, s'.link? k = some link → ∀ c' ∈ link.asked,
      c' = c ∧ call'.state.connection = some k) : s'.Inv py tls strict maximum := by
  have hlt : c < s.calls.length := (List.getElem?_eq_some_iff.mp hc).1
  have hget : ∀ (c' : ℕ) (call₁ : Call F), s'.calls[c']? = some call₁ →
      c' = c ∧ call₁ = call' ∨ c' ≠ c ∧ s.calls[c']? = some call₁ := by
    intro c' call₁ h'
    rw [hcalls] at h'
    by_cases hne : c' = c
    · subst hne
      rw [List.getElem?_set_self hlt] at h'
      exact .inl ⟨rfl, (Option.some.inj h').symm⟩
    · rw [List.getElem?_set_ne (Ne.symm hne)] at h'
      exact .inr ⟨hne, h'⟩
  -- No other call uses the connection.
  have hothers : ∀ (c' : ℕ) (call' : Call F), c' ≠ c → s.calls[c']? = some call' →
      call'.state.connection ≠ some k := by
    intro c' call' hne h' heq
    rcases hbefore with hown | ⟨-, havailable | hnew⟩
    · exact hne (h.alone c call c' call' k hc h' hown heq)
    · exact h.apart c' call' k h' heq havailable
    · exact absurd (h.made c' call' k h' heq) (not_lt.mpr hnew)
  have hnotPooled : call'.state.connection = some k → k ∉ s'.available := by
    intro hstate hmem
    rcases hpooled k hmem with ⟨-, hne⟩ | ⟨-, hnone, -⟩
    · exact hne rfl
    · rw [hstate] at hnone
      cases hnone
  refine ⟨?_, hnodup, ?_, ?_, ?_, ?_, ?_, ?_⟩
  · have hcount := countP_set call' (fun call => call.state.connection.isSome) hc
    have hold := h.slots
    rw [inUse] at hold ⊢
    rw [hcalls]
    omega
  · intro j hj
    rcases hpooled j hj with ⟨hmem, hne⟩ | ⟨rfl, -, hidle⟩
    · rw [hlinks j hne]
      exact h.pooled j hmem
    · exact hidle
  · intro c' call₁ j h' hconnection
    rcases hget c' call₁ h' with ⟨rfl, rfl⟩ | ⟨-, hold⟩
    · rw [hafter j hconnection]
      exact hk
    · exact (h.made c' call₁ j hold hconnection).trans_le hlength
  · intro c' call₁ j h' hconnection hmem
    rcases hget c' call₁ h' with ⟨rfl, rfl⟩ | ⟨hne, hold⟩
    · obtain rfl := hafter j hconnection
      exact hnotPooled hconnection hmem
    · rcases hpooled j hmem with ⟨hmem', -⟩ | ⟨rfl, -, -⟩
      · exact h.apart c' call₁ j hold hconnection hmem'
      · exact hothers c' call₁ hne hold hconnection
  · intro c₁ call₁ c₂ call₂ j h₁ h₂ hconnection₁ hconnection₂
    rcases hget c₁ call₁ h₁ with ⟨rfl, rfl⟩ | ⟨hne₁, hold₁⟩ <;>
      rcases hget c₂ call₂ h₂ with ⟨rfl, rfl⟩ | ⟨hne₂, hold₂⟩
    · rfl
    · obtain rfl := hafter j hconnection₁
      exact absurd hconnection₂ (hothers c₂ call₂ hne₂ hold₂)
    · obtain rfl := hafter j hconnection₂
      exact absurd hconnection₁ (hothers c₁ call₁ hne₁ hold₁)
    · exact h.alone c₁ call₁ c₂ call₂ j hold₁ hold₂ hconnection₁ hconnection₂
  · intro c' call₁ h'
    rcases hget c' call₁ h' with ⟨rfl, rfl⟩ | ⟨hne, hold⟩
    · exact hfits
    · have hfits' := h.fits c' call₁ hold
      cases hconnection : call₁.state.connection with
      | none => rwa [hconnection] at hfits'
      | some j =>
          have hjk : j ≠ k := fun heq => hothers c' call₁ hne hold (heq ▸ hconnection)
          rw [hconnection, Option.bind_some] at hfits'
          rwa [Option.bind_some, hlinks j hjk]
  · intro j link hlink c' hmem
    by_cases hjk : j = k
    · subst hjk
      obtain ⟨rfl, hstate⟩ := hasked link hlink c' hmem
      exact ⟨_, by rw [hcalls, List.getElem?_set_self hlt], hstate⟩
    · rw [hlinks j hjk] at hlink
      obtain ⟨call₁, h', hconnection⟩ := h.asked j link hlink c' hmem
      by_cases hne : c' = c
      · subst hne
        obtain rfl := Option.some.inj (hc.symm.trans h')
        rcases hbefore with hown | ⟨hnone, -⟩
        · exact absurd (Option.some.inj (hconnection.symm.trans hown)) hjk
        · rw [hconnection] at hnone
          cases hnone
      · exact ⟨call₁, by rw [hcalls, List.getElem?_set_ne (Ne.symm hne)]; exact h', hconnection⟩

/-! ## Steps of a call -/

/-- What fits a state does not depend on the state the call had. -/
theorem fits_with {state before : CallState F} {link : Option Link} :
    state.Fits py tls strict c { call with state := before } link ↔
      state.Fits py tls strict c call link := by
  cases state with
  | waiting | closing | done => exact Iff.rfl
  | holds k stage => cases stage <;> exact Iff.rfl

@[simp] theorem link?_setCall (s : Pool F) (c : ℕ) (call : Call F) (state : CallState F) (k : ℕ) :
    (s.setCall c call state).link? k = s.link? k := rfl

/-- What is asked on a connection was asked by the call that uses it. -/
theorem Inv.eq_of_asked (h : s.Inv py tls strict maximum) (hc : s.calls[c]? = some call)
    (hk : call.state.connection = some k) {link : Link} (hlink : s.link? k = some link) {c' : ℕ}
    (hmem : c' ∈ link.asked) : c' = c := by
  obtain ⟨call', hc', hconnection⟩ := h.asked k link hlink c' hmem
  exact h.alone c call c' call' k hc hc' hk hconnection

/-- The link of a connection in use. -/
theorem Inv.fits_at (h : s.Inv py tls strict maximum) (hc : s.calls[c]? = some call)
    (hk : call.state.connection = some k) : call.state.Fits py tls strict c call (s.link? k) := by
  have hfits := h.fits c call hc
  rwa [hk, Option.bind_some] at hfits

/-- A call goes on, and its connection with it. -/
theorem Inv.goOn (h : s.Inv py tls strict maximum) {state : CallState F} {link : Option Link}
    (hc : s.calls[c]? = some call) (hk : call.state.connection = some k)
    (hstate : state.connection = some k) (hfits : state.Fits py tls strict c call link)
    (hasked : ∀ l ∈ link, ∀ c' ∈ l.asked, c' = c) :
    ((s.setLink k link).setCall c call state).Inv py tls strict maximum := by
  have hlt := h.made c call k hc hk
  have hself := link?_setLink_self link hlt
  have hlength : (s.setLink k link).links.length = s.links.length := List.length_set
  refine h.advance hc (.inl hk) ?_ rfl (fun j hj => link?_setLink_of_ne hj) hlength.ge
    (hlength ▸ hlt) ?_ h.nodup ?_ ?_ ?_
  · intro j hj
    exact Option.some.inj (hj.symm.trans hstate)
  · rw [hstate, hk]
    rfl
  · intro j hj
    exact .inl ⟨hj, fun heq => h.apart c call k hc hk (heq ▸ hj)⟩
  · rw [hstate, Option.bind_some, link?_setCall, hself]
    exact fits_with.mpr hfits
  · intro l hl c' hmem
    rw [link?_setCall, hself] at hl
    exact ⟨hasked l hl c' hmem, hstate⟩

/-- A call goes on, and its connection stays as it is. -/
theorem Inv.stay (h : s.Inv py tls strict maximum) {state : CallState F}
    (hc : s.calls[c]? = some call)
    (hk : call.state.connection = some k) (hstate : state.connection = some k)
    (hfits : state.Fits py tls strict c call (s.link? k)) :
    (s.setCall c call state).Inv py tls strict maximum := by
  refine h.advance hc (.inl hk) ?_ rfl (fun j _ => rfl) le_rfl (h.made c call k hc hk) ?_ h.nodup
    ?_ ?_ ?_
  · intro j hj
    exact Option.some.inj (hj.symm.trans hstate)
  · rw [hstate, hk]
    rfl
  · intro j hj
    exact .inl ⟨hj, fun heq => h.apart c call k hc hk (heq ▸ hj)⟩
  · rw [hstate, Option.bind_some, link?_setCall]
    exact fits_with.mpr hfits
  · intro l hl c' hmem
    exact ⟨h.eq_of_asked hc hk hl hmem, hstate⟩

/-- A call that gives up has nothing to answer. -/
theorem Inv.giveUp (h : s.Inv py tls strict maximum) (hc : s.calls[c]? = some call)
    (hk : call.state.connection = some k) (raised : Raised)
    (hsettled : strict → ∀ l ∈ s.link? k, l.Settled tls) :
    (s.setCall c call (.closing k (.error raised))).Inv py tls strict maximum :=
  h.stay hc hk rfl ⟨fun _ heq => by (cases heq), hsettled⟩

/-- The connections that are left when the last one is taken. -/
theorem dropLast_of_getLast? {available : List ℕ} (h : available.getLast? = some k) :
    available = available.dropLast ++ [k] := by
  obtain ⟨front, rfl⟩ := List.getLast?_eq_some_iff.mp h
  rw [List.dropLast_concat]

theorem Inv.acquire (h : s.Inv py tls strict maximum) (hc : s.calls[c]? = some call)
    (hstate : call.state = .waiting) (hfree : 0 < s.free) :
    (s.acquire c call).Inv py tls strict maximum := by
  have hnone : call.state.connection = none := by rw [hstate]; rfl
  have hreply : call.reply = none := by
    have hfits := h.fits c call hc
    rw [hstate] at hfits
    exact hfits
  rw [Pool.acquire]
  cases hlast : s.available.getLast? with
  | some k =>
      have hsplit := dropLast_of_getLast? hlast
      have hmem : k ∈ s.available := by rw [hsplit]; simp
      have hnodup := h.nodup
      rw [hsplit, List.nodup_append] at hnodup
      obtain ⟨link, hlink, hidle⟩ := h.pooled k hmem
      have hopen : (s.link? k).isSome := by rw [hlink]; rfl
      simp only
      rw [if_pos (show (link? { s with free := s.free - 1 } k).isSome from hopen)]
      refine h.advance hc (.inr ⟨hnone, .inl hmem⟩) ?_ rfl (fun j _ => rfl) le_rfl
        (lt_of_link? hlink) ?_ hnodup.1 ?_ ?_ ?_
      · intro j hj
        exact (Option.some.inj hj).symm
      · rw [hnone]
        exact Nat.sub_add_cancel hfree
      · intro j hj
        refine .inl ⟨(List.dropLast_subset _) hj, ?_⟩
        rintro rfl
        exact hnodup.2.2 j hj j List.mem_cons_self rfl
      · exact ⟨hreply, link, hlink, hidle⟩
      · intro l hl c' hc'
        obtain rfl := Option.some.inj (hlink.symm.trans hl)
        rw [hidle.asked] at hc'
        cases hc'
  | none =>
      have hlast' : (s.links ++ [none])[s.links.length]? = some none := by simp
      simp only
      refine h.advance (k := s.links.length) hc (.inr ⟨hnone, .inr le_rfl⟩) ?_ rfl ?_ ?_ ?_ ?_
        h.nodup ?_ ?_ ?_
      · intro j hj
        exact (Option.some.inj hj).symm
      · intro j hj
        rw [link?, link?]
        change ((s.links ++ [none])[j]?).join = _
        rcases Nat.lt_or_gt_of_ne hj with hlt | hgt
        · rw [List.getElem?_append_left hlt]
        · rw [List.getElem?_eq_none (by simp; omega), List.getElem?_eq_none hgt.le]
      · change s.links.length ≤ (s.links ++ [none]).length
        simp
      · change s.links.length < (s.links ++ [none]).length
        simp
      · rw [hnone]
        exact Nat.sub_add_cancel hfree
      · intro j hj
        obtain ⟨link, hlink, -⟩ := h.pooled j hj
        exact .inl ⟨hj, (lt_of_link? hlink).ne⟩
      · refine ⟨?_, hreply⟩
        change ((s.links ++ [none])[s.links.length]?).join = none
        rw [hlast']
        rfl
      · intro l hl
        change ((s.links ++ [none])[s.links.length]?).join = some l at hl
        rw [hlast'] at hl
        cases hl

theorem Inv.write (h : s.Inv py tls strict maximum) (hc : s.calls[c]? = some call)
    (hstate : call.state = .holds k .writing) {link : Link} (hlink : s.link? k = some link)
    (size : ℕ) : (s.write c call k link size).Inv py tls strict maximum := by
  have hk : call.state.connection = some k := by rw [hstate]; rfl
  have hfits := h.fits_at hc hk
  rw [hstate] at hfits
  obtain ⟨hreply, l, hl, hidle⟩ := hfits
  obtain rfl := Option.some.inj (hlink.symm.trans hl)
  have hasked : link.asked ++ [c] = [c] := by rw [hidle.asked, List.nil_append]
  refine h.goOn hc hk rfl ⟨_, rfl, .inl ⟨hasked, hreply, rfl, hidle.buffer, hidle.coming⟩⟩ ?_
  intro l hl c' hc'
  obtain rfl := Option.some.inj hl
  dsimp only at hc'
  rw [hasked, List.mem_singleton] at hc'
  exact hc'

theorem Inv.drained (h : s.Inv py tls strict maximum) (hc : s.calls[c]? = some call)
    (hstate : call.state = .holds k .draining) {link : Link} (hlink : s.link? k = some link)
    (hop : s.drained c call k link = some s') : s'.Inv py tls strict maximum := by
  have hk : call.state.connection = some k := by rw [hstate]; rfl
  have hfits := h.fits_at hc hk
  rw [hstate] at hfits
  rw [Pool.drained] at hop
  split at hop
  case h_1 raised hlost =>
    rw [← Option.some.inj hop]
    refine h.giveUp hc hk _ fun _ l hl => .inr (.inl ?_)
    obtain rfl := Option.some.inj (hlink.symm.trans hl)
    rw [hlost]
    rfl
  case h_2 =>
    split at hop
    · rw [← Option.some.inj hop]
      exact h.stay hc hk rfl hfits
    · cases hop

/-- Where the reader is after an answer. -/
theorem exchange_resume {phase : Phase F} {link : Link} {bytes buffer : Bytes} {next : Next F}
    (h : Exchange py c call phase link)
    (hanswer : link.reader.answer phase.awaits = some (.ok bytes, buffer))
    (hnext : phase.resume py call.streaming bytes = .ok next) :
    match next with
    | .inl phase' => Exchange py c call phase' { link with reader.buffer := buffer }
    | .inr (answer, reusable) => call.Answered py answer ∧ link.asked = [] ∧ link.unsent = 0 ∧
        (reusable → Link.Idle { link with reader.buffer := buffer }) := by
  rcases h with ⟨-, -, rfl, hempty, -⟩ | ⟨hasked, hunsent, reply, hreply, htracks⟩
  · -- Before the response the stream can only end.
    obtain ⟨hbuffer, -⟩ := answer_ok hanswer
    obtain ⟨rfl, -⟩ := List.append_eq_nil_iff.mp (hbuffer.symm.trans hempty)
    cases hnext
  · rcases htracks.resume reply.2 hanswer hnext with hconsumed | ⟨heof, hnil, phase', rfl, hdoomed⟩
    · cases next with
      | inl phase' => exact .inr ⟨hasked, hunsent, reply, hreply, .inl hconsumed⟩
      | inr result =>
          obtain ⟨answer, reusable⟩ := result
          obtain ⟨hattributed, hall⟩ := hconsumed
          refine ⟨⟨reply, hreply, hattributed⟩, hasked, hunsent, fun hreusable => ?_⟩
          obtain ⟨hbuffer, hcoming⟩ := List.append_eq_nil_iff.mp (hall hreusable)
          exact ⟨hasked, hunsent, hbuffer, hcoming⟩
    · exact .inr ⟨hasked, hunsent, reply, hreply, .inr ⟨heof, hnil, hdoomed⟩⟩

theorem eq_of_exchange {phase : Phase F} {link : Link} (h : Exchange py c call phase link)
    {c' : ℕ} (hmem : c' ∈ link.asked) : c' = c := by
  rcases h with ⟨hasked, -⟩ | ⟨hasked, -⟩
  · rw [hasked] at hmem
    exact List.mem_singleton.mp hmem
  · rw [hasked] at hmem
    cases hmem

/-- When the reader has an answer, the request was answered, or the stream has ended. -/
theorem settled_of_answer {phase : Phase F} {link : Link} {result : Except Raised Bytes}
    {buffer : Bytes} (h : Exchange py c call phase link)
    (hanswer : link.reader.answer phase.awaits = some (result, buffer))
    (hflushed : link.reader.eof → link.Settled tls) :
    Link.Settled tls { link with reader.buffer := buffer } := by
  rcases h with ⟨-, -, rfl, hempty, -⟩ | ⟨-, hunsent, -⟩
  · cases hlost : link.reader.lost with
    | some raised => exact .inr (.inl (by dsimp only; rw [hlost]; rfl))
    | none =>
        cases heof : link.reader.eof with
        | true => exact hflushed heof
        | false =>
            rw [StreamReader.answer.eq_def, hlost] at hanswer
            simp [Phase.awaits, hempty, heof, Lines.cutLine] at hanswer
  · exact .inl hunsent

theorem Inv.read (h : s.Inv py tls strict maximum) (hc : s.calls[c]? = some call) {phase : Phase F}
    (hstate : call.state = .holds k (.reading phase)) {link : Link} (hlink : s.link? k = some link)
    (hflushed : strict → link.reader.eof → link.Settled tls)
    (hop : s.read py c call k link phase = some s') : s'.Inv py tls strict maximum := by
  have hk : call.state.connection = some k := by rw [hstate]; rfl
  have hfits := h.fits_at hc hk
  rw [hstate] at hfits
  obtain ⟨l, hl, hexchange⟩ := hfits
  obtain rfl := Option.some.inj (hlink.symm.trans hl)
  have hasked : ∀ (buffer : Bytes), ∀ l ∈ some { link with reader.buffer := buffer },
      ∀ c' ∈ l.asked, c' = c := by
    intro buffer l hl c' hc'
    obtain rfl := Option.some.inj hl
    exact eq_of_exchange hexchange hc'
  rw [Pool.read, Option.map_eq_some_iff] at hop
  obtain ⟨⟨result, buffer⟩, hanswer, rfl⟩ := hop
  have hsettled : strict → ∀ l ∈ some { link with reader.buffer := buffer }, l.Settled tls := by
    intro hstrict l hl
    obtain rfl := Option.some.inj hl
    exact settled_of_answer hexchange hanswer (hflushed hstrict)
  cases result with
  | error raised => exact h.goOn hc hk rfl ⟨nofun, hsettled⟩ (hasked buffer)
  | ok bytes =>
      change ((s.setLink k _).setCall c call (match phase.resume py call.streaming bytes with
        | .error raised => .closing k (.error raised)
        | .ok (.inl phase) => .holds k (.reading phase)
        | .ok (.inr (answer, reusable)) => .holds k (.returned answer reusable))).Inv py tls strict
          maximum
      cases hnext : phase.resume py call.streaming bytes with
      | error raised => exact h.goOn hc hk rfl ⟨nofun, hsettled⟩ (hasked buffer)
      | ok next =>
          have hresumed := exchange_resume hexchange hanswer hnext
          cases next with
          | inl phase' => exact h.goOn hc hk rfl ⟨_, rfl, hresumed⟩ (hasked buffer)
          | inr result =>
              obtain ⟨hanswered, hnone, hzero, hidle⟩ := hresumed
              exact h.goOn hc hk rfl ⟨hanswered, _, rfl, hnone, hzero, hidle⟩ (hasked buffer)

theorem Inv.finish (h : s.Inv py tls strict maximum) (hc : s.calls[c]? = some call)
    {answer : Answer F} {reusable : Bool}
    (hstate : call.state = .holds k (.returned answer reusable)) :
    (s.finish c call k answer reusable).Inv py tls strict maximum := by
  have hk : call.state.connection = some k := by rw [hstate]; rfl
  have hfits := h.fits_at hc hk
  rw [hstate] at hfits
  obtain ⟨hanswered, link, hlink, hasked, hunsent, hidle⟩ := hfits
  have hall : ∀ answer', Except.ok answer = Except.ok (ε := Raised) answer' →
      call.Answered py answer' := by
    rintro _ ⟨⟩
    exact hanswered
  cases reusable with
  | false =>
      refine h.stay hc hk rfl ⟨fun answer' heq => ⟨hall answer' heq, fun l hl => ?_⟩,
        fun _ l hl => ?_⟩ <;> obtain rfl := Option.some.inj (hlink.symm.trans hl)
      · exact hasked
      · exact .inl hunsent
  | true =>
      have hnot := h.apart c call k hc hk
      refine h.advance hc (.inl hk) (fun j hj => by cases hj) rfl (fun j _ => rfl) le_rfl
        (lt_of_link? hlink) ?_ ?_ ?_ ?_ ?_
      · rw [hk]
        rfl
      · change (s.available ++ [k]).Nodup
        exact List.nodup_append.mpr ⟨h.nodup, List.nodup_singleton k, fun j hj k' hk' heq =>
          hnot (List.mem_singleton.mp hk' ▸ heq ▸ hj)⟩
      · intro j hj
        rcases List.mem_append.mp hj with hmem | hmem
        · exact .inl ⟨hmem, fun heq => hnot (heq ▸ hmem)⟩
        · exact .inr ⟨List.mem_singleton.mp hmem, rfl, link, hlink, hidle rfl⟩
      · exact hall
      · intro l hl c' hc'
        obtain rfl := Option.some.inj (hlink.symm.trans hl)
        rw [hasked] at hc'
        cases hc'

theorem Inv.closed (h : s.Inv py tls strict maximum) (hc : s.calls[c]? = some call)
    {outcome : Except Raised (Answer F)} (hstate : call.state = .closing k outcome) :
    (s.closed c call k outcome).Inv py tls strict maximum := by
  have hk : call.state.connection = some k := by rw [hstate]; rfl
  have hfits := h.fits_at hc hk
  rw [hstate] at hfits
  have hlt := h.made c call k hc hk
  have hself := link?_setLink_self none hlt
  have hlength : (s.setLink k none).links.length = s.links.length := List.length_set
  refine h.advance hc (.inl hk) (fun j hj => by cases hj) rfl
    (fun j hj => link?_setLink_of_ne hj) hlength.ge (hlength ▸ hlt) ?_ h.nodup ?_ ?_ ?_
  · rw [hk]
    rfl
  · intro j hj
    exact .inl ⟨hj, fun heq => h.apart c call k hc hk (heq ▸ hj)⟩
  · exact fun answer heq => (hfits.1 answer heq).1
  · intro l hl
    rw [show (s.closed c call k outcome).link? k = none from hself] at hl
    cases hl

theorem Inv.callStep (h : s.Inv py tls strict maximum) (hc : s.calls[c]? = some call)
    {op : CallStep} (hflushed : strict → s.Flushed tls (.call c op))
    (hop : s.callStep py tls c call op call.state = some s') : s'.Inv py tls strict maximum := by
  rw [Pool.callStep.eq_def] at hop
  split at hop
  case h_1 hstate =>
    split at hop
    case isTrue hfree =>
        rw [← Option.some.inj hop]
        exact h.acquire hc hstate hfree
    case isFalse => cases hop
  case h_2 k hstate =>
    have hk : call.state.connection = some k := by rw [hstate]; rfl
    have hfits := h.fits_at hc hk
    rw [hstate] at hfits
    rw [← Option.some.inj hop]
    refine h.goOn hc hk rfl ⟨hfits.2, _, rfl, rfl, rfl, rfl, rfl⟩ ?_
    intro l hl c' hc'
    obtain rfl := Option.some.inj hl
    cases hc'
  case h_3 raised k hstate =>
    rw [← Option.some.inj hop]
    have hk : call.state.connection = some k := by rw [hstate]; rfl
    have hfits := h.fits_at hc hk
    rw [hstate] at hfits
    refine h.giveUp hc hk raised fun _ l hl => ?_
    cases hfits.1.symm.trans hl
  case h_4 size k hstate =>
    split at hop
    · obtain ⟨link, hlink, rfl⟩ := Option.map_eq_some_iff.mp hop
      exact h.write hc hstate hlink size
    · cases hop
  case h_5 k hstate =>
    obtain ⟨link, hlink, hop⟩ := Option.bind_eq_some_iff.mp hop
    exact h.drained hc hstate hlink hop
  case h_6 k phase hstate =>
    obtain ⟨link, hlink, hop⟩ := Option.bind_eq_some_iff.mp hop
    have hk : call.state.connection = some k := by rw [hstate]; rfl
    exact h.read hc hstate hlink (fun hstrict heof => hflushed hstrict call hc k hk link hlink heof)
      hop
  case h_7 k stage hstate =>
    rw [← Option.some.inj hop]
    have hk : call.state.connection = some k := by rw [hstate]; rfl
    exact h.giveUp hc hk _ fun hstrict l hl => hflushed hstrict call hc k hk l hl
  case h_8 k answer reusable hstate =>
    rw [← Option.some.inj hop]
    exact h.finish hc hstate
  case h_9 k outcome hstate =>
    split at hop
    · rw [← Option.some.inj hop]
      exact h.closed hc hstate
    · cases hop
  case h_10 => cases hop

/-! ## Steps of the server and the network -/

/-- What a step of the server or the network leaves as it is. -/
theorem link_step_cases {link link' : Link} {op : LinkStep} (h : link.step op = some link') :
    link'.asked = link.asked ∧ link'.unsent ≤ link.unsent ∧
      (link.coming = [] → link'.coming = [] ∧ link'.reader.buffer = link.reader.buffer) ∧
      (link'.reader.buffer ++ link'.coming = link.reader.buffer ++ link.coming ∧
        (link.reader.eof → link'.reader.eof ∧ link'.reader.buffer = link.reader.buffer)) ∧
      (link.reader.lost.isSome → link'.reader.lost.isSome) := by
  rw [Link.step.eq_def] at h
  split at h
  case h_1 n =>
    split at h
    · obtain rfl := Option.some.inj h
      exact ⟨rfl, Nat.sub_le _ _, fun hnil => ⟨hnil, rfl⟩, ⟨rfl, fun heof => ⟨heof, rfl⟩⟩, id⟩
    · cases h
  case h_2 n =>
    split at h
    case isTrue hdeliver =>
        obtain ⟨hpos, hle, heof, -⟩ := hdeliver
        obtain rfl := Option.some.inj h
        refine ⟨rfl, le_rfl, fun hnil => ?_, ⟨?_, fun hended => ?_⟩, id⟩
        · rw [hnil, List.length_nil] at hle
          omega
        · dsimp only
          rw [List.append_assoc, List.take_append_drop]
        · rw [heof] at hended
          cases hended
    case isFalse => cases h
  case h_3 =>
    obtain rfl := Option.some.inj h
    exact ⟨rfl, le_rfl, fun hnil => ⟨hnil, rfl⟩, ⟨rfl, fun _ => ⟨rfl, rfl⟩⟩, id⟩
  case h_4 raised =>
    obtain rfl := Option.some.inj h
    exact ⟨rfl, le_rfl, fun hnil => ⟨hnil, rfl⟩, ⟨rfl, fun heof => ⟨heof, rfl⟩⟩, fun _ => rfl⟩

theorem idle_step {link link' : Link} {op : LinkStep} (h : link.step op = some link')
    (hidle : link.Idle) : link'.Idle := by
  obtain ⟨hasked, hunsent, hcoming, -, -⟩ := link_step_cases h
  obtain ⟨hnil, hbuffer⟩ := hcoming hidle.coming
  refine ⟨hasked.trans hidle.asked, ?_, hbuffer.trans hidle.buffer, hnil⟩
  rw [hidle.unsent] at hunsent
  exact Nat.le_zero.mp hunsent

theorem tracks_step {phase : Phase F} {r : Response} {streaming : Bool} {link link' : Link}
    {op : LinkStep} (h : link.step op = some link')
    (htracks : Tracks py streaming r phase link.reader link.coming) :
    Tracks py streaming r phase link'.reader link'.coming := by
  obtain ⟨-, -, -, ⟨hsame, heof⟩, -⟩ := link_step_cases h
  rcases htracks with hremains | ⟨hended, hempty, hdoomed⟩
  · exact .inl (by rwa [hsame])
  · exact .inr ⟨(heof hended).1, (heof hended).2.trans hempty, hdoomed⟩

theorem exchange_step {phase : Phase F} {link link' : Link} {op : LinkStep}
    (h : link.step op = some link') (hexchange : Exchange py c call phase link) :
    Exchange py c call phase link' := by
  obtain ⟨hasked, hunsent, hcoming, -, -⟩ := link_step_cases h
  rcases hexchange with ⟨hone, hreply, hphase, hbuffer, hnil⟩ | ⟨hnone, hzero, reply, hreply, hold⟩
  · obtain ⟨hnil', hbuffer'⟩ := hcoming hnil
    exact .inl ⟨hasked.trans hone, hreply, hphase, hbuffer'.trans hbuffer, hnil'⟩
  · exact .inr ⟨hasked.trans hnone, by omega, reply, hreply, tracks_step h hold⟩

theorem fits_step {state : CallState F} {link link' : Link} {op : LinkStep}
    (h : link.step op = some link') (hfits : state.Fits py tls strict c call (some link)) :
    state.Fits py tls strict c call (some link') := by
  obtain ⟨hasked, hunsent, -, -, hlost⟩ := link_step_cases h
  cases state with
  | waiting | done => exact hfits
  | closing k outcome =>
      refine ⟨fun answer heq => ⟨(hfits.1 answer heq).1, fun l hl => ?_⟩,
        fun hstrict l hl => ?_⟩ <;> obtain rfl := Option.some.inj hl
      · exact hasked.trans ((hfits.1 answer heq).2 link rfl)
      · exact (hfits.2 hstrict link rfl).imp (fun hzero => Nat.le_zero.mp (hunsent.trans_eq hzero))
          (Or.imp_left hlost)
  | holds k stage =>
      cases stage with
      | connecting =>
          obtain ⟨hnone, -⟩ := hfits
          cases hnone
      | writing =>
          obtain ⟨hreply, l, hl, hidle⟩ := hfits
          obtain rfl := Option.some.inj hl
          exact ⟨hreply, link', rfl, idle_step h hidle⟩
      | draining =>
          obtain ⟨l, hl, hexchange⟩ := hfits
          obtain rfl := Option.some.inj hl
          exact ⟨link', rfl, exchange_step h hexchange⟩
      | reading phase =>
          obtain ⟨l, hl, hexchange⟩ := hfits
          obtain rfl := Option.some.inj hl
          exact ⟨link', rfl, exchange_step h hexchange⟩
      | returned answer reusable =>
          obtain ⟨hanswered, l, hl, hnone, hzero, hidle⟩ := hfits
          obtain rfl := Option.some.inj hl
          exact ⟨hanswered, link', rfl, hasked.trans hnone, Nat.le_zero.mp (hunsent.trans_eq hzero),
            fun hr => idle_step h (hidle hr)⟩

theorem Inv.linkStep (h : s.Inv py tls strict maximum) {link link' : Link} {op : LinkStep}
    (hlink : s.link? k = some link) (hop : link.step op = some link') :
    (s.setLink k (some link')).Inv py tls strict maximum := by
  have hself := link?_setLink_self (some link') (lt_of_link? hlink)
  have hasked := (link_step_cases hop).1
  refine ⟨h.slots, h.nodup, ?_, ?_, h.apart, h.alone, ?_, ?_⟩
  · intro j hj
    obtain ⟨l, hl, hidle⟩ := h.pooled j hj
    by_cases hjk : j = k
    · subst hjk
      obtain rfl := Option.some.inj (hlink.symm.trans hl)
      exact ⟨link', hself, idle_step hop hidle⟩
    · exact ⟨l, by rw [link?_setLink_of_ne hjk]; exact hl, hidle⟩
  · intro c call j hc hj
    rw [show (s.setLink k (some link')).links.length = s.links.length from List.length_set]
    exact h.made c call j hc hj
  · intro c call hc
    have hfits := h.fits c call hc
    cases hconnection : call.state.connection with
    | none => rwa [hconnection] at hfits
    | some j =>
        rw [hconnection, Option.bind_some] at hfits
        rw [Option.bind_some]
        by_cases hjk : j = k
        · subst hjk
          rw [hlink] at hfits
          rw [hself]
          exact fits_step hop hfits
        · rwa [link?_setLink_of_ne hjk]
  · intro j l hl c hmem
    by_cases hjk : j = k
    · subst hjk
      obtain rfl := Option.some.inj (hself.symm.trans hl)
      exact h.asked j link hlink c (hasked ▸ hmem)
    · exact h.asked j l (by rwa [link?_setLink_of_ne hjk] at hl) c hmem

/-- The server answers a request that was not answered before, of a call that still waits for
it or has given up. -/
theorem Inv.answer (h : s.Inv py tls strict maximum) {link : Link} {reply : Reply}
    (hlink : s.link? k = some link) (hop : s.answer k reply link = some s') :
    s'.Inv py tls strict maximum := by
  rw [Pool.answer] at hop
  cases hasked : link.asked with
  | nil =>
      rw [hasked] at hop
      cases hop
  | cons c asked =>
      rw [hasked] at hop
      dsimp only at hop
      split at hop
      case isFalse => cases hop
      case isTrue hunsent =>
          obtain ⟨call, hc, rfl⟩ := Option.map_eq_some_iff.mp hop
          have hmem : c ∈ link.asked := by
            rw [hasked]
            exact List.mem_cons_self
          obtain ⟨call₁, hc₁, hk⟩ := h.asked k link hlink c hmem
          obtain rfl := Option.some.inj (hc.symm.trans hc₁)
          have hne : link.asked ≠ [] := by rw [hasked]; exact List.cons_ne_nil _ _
          have hlt := lt_of_link? hlink
          have hself := link?_setLink_self
            (some { link with asked, coming := link.coming ++ reply.1.bytes }) hlt
          have hfits := h.fits_at hc hk
          rw [hlink] at hfits
          refine h.advance hc (.inl hk) ?_ rfl (fun j hj => link?_setLink_of_ne hj)
            (List.length_set).ge (hlt.trans_eq (List.length_set).symm) rfl h.nodup ?_ ?_ ?_
          · exact fun j hj => Option.some.inj (hj.symm.trans hk)
          · intro j hj
            exact .inl ⟨hj, fun heq => h.apart c call k hc hk (heq ▸ hj)⟩
          · have hbind : (some k).bind (link? { s.setLink k (some { link with
                asked, coming := link.coming ++ reply.1.bytes }) with
                calls := s.calls.set c { call with reply := some reply } }) =
                some { link with asked, coming := link.coming ++ reply.1.bytes } := hself
            dsimp only
            rw [hk, hbind]
            -- Only a call that waits for the response, or has given up, has asked.
            have hexchange : ∀ {phase : Phase F}, (∃ l, some link = some l ∧
                Exchange py c call phase l) → phase = .statusLine ∧
                Exchange py c { call with reply := some reply } phase
                  { link with asked, coming := link.coming ++ reply.1.bytes } := by
              rintro phase ⟨l, hl, hexchange⟩
              obtain rfl := Option.some.inj hl
              rcases hexchange with ⟨hone, hreply, rfl, hbuffer, hcoming⟩ | ⟨hnone, -⟩
              · rw [hasked, List.cons.injEq] at hone
                refine ⟨rfl, .inr ⟨hone.2, hunsent, reply, rfl, .inl ?_⟩⟩
                rw [Remains, hbuffer, hcoming]
                rfl
              · exact absurd hnone hne
            cases hstate : call.state with
            | waiting | done => rw [hstate] at hk; cases hk
            | closing j outcome =>
                rw [hstate] at hfits
                refine ⟨fun answer heq => absurd ((hfits.1 answer heq).2 link rfl) hne,
                  fun hstrict l hl => ?_⟩
                obtain rfl := Option.some.inj hl
                exact hfits.2 hstrict link rfl
            | holds j stage =>
                rw [hstate] at hfits
                cases stage with
                | connecting => cases hfits.1
                | writing =>
                    obtain ⟨-, l, hl, hidle⟩ := hfits
                    obtain rfl := Option.some.inj hl
                    exact absurd hidle.asked hne
                | draining => exact ⟨_, rfl, (hexchange hfits).2⟩
                | reading phase => exact ⟨_, rfl, (hexchange hfits).2⟩
                | returned answer reusable =>
                    obtain ⟨-, l, hl, hnone, -⟩ := hfits
                    obtain rfl := Option.some.inj hl
                    exact absurd hnone hne
          · intro l hl c' hmem
            obtain rfl := Option.some.inj (hself.symm.trans hl)
            refine ⟨h.eq_of_asked hc hk hlink ?_, hk⟩
            rw [hasked]
            exact List.mem_cons_of_mem _ hmem

theorem Inv.submit (h : s.Inv py tls strict maximum) (streaming : Bool) :
    Inv py tls strict maximum { s with calls := s.calls ++ [{ streaming }] } := by
  have hget : ∀ (c : ℕ) (call : Call F), (s.calls ++ [({ streaming } : Call F)])[c]? = some call →
      s.calls[c]? = some call ∨ call = { streaming } := by
    intro c call hc
    rcases Nat.lt_or_ge c s.calls.length with hlt | hge
    · rw [List.getElem?_append_left hlt] at hc
      exact .inl hc
    · rw [List.getElem?_append_right hge] at hc
      have hmem := List.mem_of_getElem? hc
      exact .inr (List.mem_singleton.mp hmem)
  have hnone : ∀ {call : Call F} {k : ℕ}, call = { streaming } →
      call.state.connection ≠ some k := by
    rintro _ k rfl h
    cases h
  refine ⟨?_, h.nodup, h.pooled, ?_, ?_, ?_, ?_, ?_⟩
  · have hold := h.slots
    rw [inUse] at hold ⊢
    dsimp only
    rw [List.countP_append]
    exact hold
  · intro c call k hc hk
    rcases hget c call hc with hold | hnew
    · exact h.made c call k hold hk
    · exact absurd hk (hnone hnew)
  · intro c call k hc hk
    rcases hget c call hc with hold | hnew
    · exact h.apart c call k hold hk
    · exact absurd hk (hnone hnew)
  · intro c call c' call' k hc hc' hk hk'
    rcases hget c call hc with hold | hnew
    · rcases hget c' call' hc' with hold' | hnew'
      · exact h.alone c call c' call' k hold hold' hk hk'
      · exact absurd hk' (hnone hnew')
    · exact absurd hk (hnone hnew)
  · intro c call hc
    rcases hget c call hc with hold | rfl
    · exact h.fits c call hold
    · exact rfl
  · intro k link hlink c hmem
    obtain ⟨call, hc, hk⟩ := h.asked k link hlink c hmem
    have hlt : c < s.calls.length := (List.getElem?_eq_some_iff.mp hc).1
    exact ⟨call, by rw [List.getElem?_append_left hlt]; exact hc, hk⟩

theorem inv_init : (init F maximum).Inv py tls strict maximum where
  slots := rfl
  nodup := List.nodup_nil
  pooled _ h := by cases h
  made _ _ _ h := by cases h
  apart _ _ _ h := by cases h
  alone _ _ _ _ _ h := by cases h
  fits _ _ h := by cases h
  asked _ _ h := by cases h

/-- **Every step** keeps the invariant. -/
theorem Inv.step? (h : s.Inv py tls strict maximum) {op : PoolStep}
    (hflushed : strict → s.Flushed tls op) (hop : s.step? py tls op = some s') :
    s'.Inv py tls strict maximum := by
  cases op with
  | submit streaming =>
      rw [← Option.some.inj hop]
      exact h.submit streaming
  | call c op =>
      obtain ⟨call, hc, hop⟩ := Option.bind_eq_some_iff.mp hop
      exact h.callStep hc hflushed hop
  | link k op =>
      obtain ⟨link, hlink, hop⟩ := Option.bind_eq_some_iff.mp hop
      obtain ⟨link', hstep, rfl⟩ := Option.map_eq_some_iff.mp hop
      exact h.linkStep hlink hstep
  | answer k reply =>
      obtain ⟨link, hlink, hop⟩ := Option.bind_eq_some_iff.mp hop
      exact h.answer hlink hop

/-! ## What the pool does -/

/-- What holds of the answers, the connections and the slots. -/
structure Sound (py : Python F) (maximum : ℕ) (s : Pool F) : Prop where
  /-- An answer that is returned is that of the response to the request of the call. -/
  attributed : ∀ (c : ℕ) (call : Call F) (answer : Answer F), s.calls[c]? = some call →
    call.state = .done (.ok answer) → call.Answered py answer
  /-- Of a connection in the pool everything was read. -/
  consumed : ∀ k ∈ s.available, ∃ link, s.link? k = some link ∧ link.Idle
  nodup : s.available.Nodup
  apart : ∀ (c : ℕ) (call : Call F) (k : ℕ), s.calls[c]? = some call →
    call.state.connection = some k → k ∉ s.available
  /-- A connection is used by one call. -/
  alone : ∀ (c : ℕ) (call : Call F) (c' : ℕ) (call' : Call F) (k : ℕ), s.calls[c]? = some call →
    s.calls[c']? = some call' → call.state.connection = some k →
    call'.state.connection = some k → c' = c
  bounded : s.inUse ≤ maximum
  /-- A slot is free, or a call has it that is not over. -/
  slots : s.free + s.inUse = maximum

/-- A step that is not one of the server or the network. -/
def WithoutServer : PoolStep → Prop
  | .submit _ | .call .. => True
  | .link .. | .answer .. => False

/-- Every call that is closing its connection can give its slot back without the server. -/
def GivesBack (py : Python F) (tls : Bool) (s : Pool F) : Prop :=
  ∀ (c : ℕ) (call : Call F) (k : ℕ) (outcome : Except Raised (Answer F)),
    s.calls[c]? = some call → call.state = .closing k outcome →
    ∃ more, (∀ op ∈ more, WithoutServer op) ∧
      (Run.exec (step py tls) s more).calls[c]? = some { call with state := .done outcome } ∧
      (Run.exec (step py tls) s more).free = s.free + 1

theorem Inv.sound (h : s.Inv py tls strict maximum) : s.Sound py maximum where
  attributed c call answer hc hstate := by
    have hfits := h.fits c call hc
    rw [hstate] at hfits
    exact hfits answer rfl
  consumed := h.pooled
  nodup := h.nodup
  apart := h.apart
  alone := h.alone
  bounded := by
    have hslots := h.slots
    omega
  slots := h.slots

theorem Inv.givesBack (h : s.Inv py tls True maximum) : s.GivesBack py tls := by
  intro c call k outcome hc hstate
  have hk : call.state.connection = some k := by rw [hstate]; rfl
  have hfits := h.fits_at hc hk
  rw [hstate] at hfits
  have hlt : c < s.calls.length := (List.getElem?_eq_some_iff.mp hc).1
  have hstep : s.step? py tls (.call c .closed) = some (s.closed c call k outcome) := by
    rw [Pool.step?, hc, Option.bind_some, hstate, Pool.callStep,
      if_pos fun link hlink => hfits.2 trivial link hlink]
  refine ⟨[.call c .closed], fun op hop => ?_, ?_, ?_⟩
  · rw [List.mem_singleton.mp hop]
    trivial
  · rw [Run.exec_cons, Run.exec_nil, step, hstep]
    exact List.getElem?_set_self hlt
  · rw [Run.exec_cons, Run.exec_nil, step, hstep]
    rfl

theorem Inv.step (h : s.Inv py tls strict maximum) (op : PoolStep)
    (hflushed : strict → s.Flushed tls op) :
    (Pool.step py tls s op).2.Inv py tls strict maximum := by
  rw [Pool.step]
  cases hop : s.step? py tls op with
  | none => exact h
  | some s' => exact h.step? hflushed hop

/-- **In every run** each answer is that of the own response, a connection in the pool was read
to the last byte and is used by nobody, and no more connections are in use than there are
slots.  If no call gives up while its request is still to be taken, every call that closes its
connection gives its slot back. -/
theorem attributes_every_byte (py : Python F) (tls : Bool) (maximum : ℕ) (ops : List PoolStep) :
    (Run.exec (step py tls) (init F maximum) ops).Sound py maximum ∧
      (Run.Each (step py tls) (Flushed tls) (init F maximum) ops →
        (Run.exec (step py tls) (init F maximum) ops).GivesBack py tls) := by
  constructor
  · have hstep : ∀ (s : Pool F) op, s.Inv py tls False maximum → True →
        (Pool.step py tls s op).2.Inv py tls False maximum :=
      fun s op h _ => h.step op False.elim
    exact (Run.exec_invariant hstep inv_init (Run.each_true _ _)).sound
  · intro hops
    have hstep : ∀ (s : Pool F) op, s.Inv py tls True maximum → s.Flushed tls op →
        (Pool.step py tls s op).2.Inv py tls True maximum :=
      fun s op h hop => h.step op fun _ => hop
    exact (Run.exec_invariant hstep inv_init hops).givesBack

/-- A platform where every event and body is `null`. -/
def nullPython : Python Empty where
  loads _ := .ok .null
  loadsBytes _ := .ok .null
  str _ := ""
  isZero := nofun
  raised e := ⟨"", e.message⟩
  int _ := .ok 0
  repr _ := ""
  decode _ := ""
  sha256 := id

/-- The field of a response of four bytes. -/
def lengthField : HeaderField := ⟨ascii "Content-Length", ascii " 4"⟩

/-- A response of four bytes. -/
def nullResponse : Response where
  status := ascii "200"
  reason := ascii "OK"
  fields := [lengthField]
  body := .sized (ascii "null")

theorem nullResponse_wellFormed : nullResponse.WellFormed where
  status := by decide
  reason := by
    rw [show nullResponse.reason = [79, 75] by decide]
    simp [InLine, newline]
  fields := by
    intro f hf
    obtain rfl := List.mem_singleton.mp hf
    refine ⟨by decide, List.all_eq_true.mp (by decide), ?_⟩
    rw [show lengthField.value = [32, 52] by decide]
    simp [InLine, newline]
  framed := by
    have hnamed : lengthField.Named "content-length" := by
      unfold HeaderField.Named
      decide
    refine ⟨⟨_, List.mem_singleton_self _, hnamed⟩, ?_, ?_⟩ <;> intro f hf <;>
      obtain rfl := List.mem_singleton.mp hf
    · unfold HeaderField.Named
      decide
    · intro _
      have hnil : ∀ b ∈ ([] : Bytes), isBlank b := fun b hb => absurd hb List.not_mem_nil
      exact ⟨[52], ⟨[32], [], by decide, by simp [isBlank], hnil⟩, by decide, by decide⟩

def nullReply : Reply := ⟨nullResponse, nullResponse_wellFormed⟩

/-- A call that reads its response, and one that waits too long for one. -/
def served : List PoolStep :=
  [.submit false, .call 0 .acquire, .call 0 .connected, .call 0 (.write 1), .call 0 .drained,
    .link 0 (.take 1), .answer 0 nullReply, .link 0 (.deliver 30), .call 0 .read, .call 0 .read,
    .link 0 (.deliver 12), .call 0 .read, .call 0 .read, .call 0 .read, .call 0 .closed,
    .submit true, .call 1 .acquire, .call 1 .connected, .call 1 (.write 1), .link 1 (.take 1),
    .call 1 .timeout, .call 1 .closed]

theorem attributes_every_byte_served :
    (Run.exec (step nullPython false) (init Empty 1) served).Sound nullPython 1 ∧
      (Run.exec (step nullPython false) (init Empty 1) served).GivesBack nullPython false :=
  have h := attributes_every_byte nullPython false 1 served
  ⟨h.1, h.2 (by decide)⟩

/-! ## A server that does not take a request -/

/-- A call whose time is over before the server takes its request. -/
def stalled : List PoolStep :=
  [.submit false, .call 0 .acquire, .call 0 .connected, .call 0 (.write 1), .call 0 .drained,
    .call 0 .timeout]

/-- The pool with one slot, while the server takes nothing. -/
structure Stuck (s : Pool Empty) : Prop where
  free : s.free = 0
  links : s.links = [some { unsent := 1, asked := [0] }]
  first : s.calls[0]? = some ⟨false, .closing 0 (.error ⟨"TimeoutError", ""⟩), none⟩
  others : ∀ c call, s.calls[c + 1]? = some call → call.state = .waiting

theorem Stuck.step {s : Pool Empty} (h : Stuck s) {op : PoolStep} (hop : WithoutServer op) :
    Stuck (Pool.step nullPython false s op).2 := by
  rw [Pool.step]
  cases hstep : s.step? nullPython false op with
  | none => exact h
  | some s' =>
      rw [Option.getD_some]
      have hpos : 0 < s.calls.length := (List.getElem?_eq_some_iff.mp h.first).1
      cases op with
      | submit streaming =>
          obtain rfl := Option.some.inj hstep
          refine ⟨h.free, h.links, ?_, fun c call hc => ?_⟩
          · rw [List.getElem?_append_left hpos]
            exact h.first
          · rcases Nat.lt_or_ge (c + 1) s.calls.length with hlt | hge
            · rw [List.getElem?_append_left hlt] at hc
              exact h.others c call hc
            · rw [List.getElem?_append_right hge] at hc
              rw [List.mem_singleton.mp (List.mem_of_getElem? hc)]
      | call c op =>
          obtain ⟨call, hc, hstep⟩ := Option.bind_eq_some_iff.mp hstep
          exfalso
          cases c with
          | zero =>
              obtain rfl := Option.some.inj (h.first.symm.trans hc)
              have hlink : s.link? 0 = some { unsent := 1, asked := [0] } := by
                rw [link?, h.links]
                rfl
              cases op <;> try cases hstep
              rw [Pool.callStep, if_neg fun hall => by
                exact absurd (hall _ hlink) (by decide)] at hstep
              cases hstep
          | succ c =>
              rw [h.others c call hc] at hstep
              cases op <;> try cases hstep
              rw [Pool.callStep, if_neg (by rw [h.free]; decide)] at hstep
              cases hstep
      | link | answer => exact hop.elim

/-- The slot of a call whose request is not taken does not come back. -/
theorem stalled_not_givesBack :
    ¬ (Run.exec (step nullPython false) (init Empty 1) stalled).GivesBack nullPython false := by
  intro hgives
  have hstuck : Stuck (Run.exec (step nullPython false) (init Empty 1) stalled) :=
    ⟨rfl, rfl, rfl, fun c call hc => by cases hc⟩
  obtain ⟨more, hmore, hdone, -⟩ := hgives 0 _ 0 _ hstuck.first rfl
  have hstep : ∀ (s : Pool Empty) op, Stuck s → WithoutServer op →
      Stuck (Pool.step nullPython false s op).2 := fun s op hs hop => hs.step hop
  have hstay := Run.exec_invariant hstep hstuck (Run.each_of_forall hmore)
  rw [hstay.first] at hdone
  cases hdone

end Pool

end MlxRuntime.Benchmark
