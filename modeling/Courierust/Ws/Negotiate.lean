import Courierust.Http.Str
import Courierust.Deflate.Wrap

/-!
# Negotiating permessage-deflate

The server selects parameters from an offer, writes them into a header, and the client reads
the header back and checks it against what it offered. Texts are lists of characters.
-/

namespace Courierust.Ws

open List
open Str
open Deflate (Deflater Inflater wrapMessage)

/-! ### Lists with quoted strings -/

/-- The loop of `split_quoted`. -/
def splitQuotedFrom (sep : Char) : List Text → Text → Bool → Bool → Text →
    Except Error (List Text)
  | out, cur, inQuotes, _, [] =>
    if inQuotes then .error (Error.protocol "websocket: unterminated quoted string")
    else .ok (out ++ [cur])
  | out, cur, inQuotes, escaped, c :: s =>
    if escaped then splitQuotedFrom sep out (cur ++ [c]) inQuotes false s
    else if c = '\\' ∧ inQuotes then splitQuotedFrom sep out (cur ++ [c]) inQuotes true s
    else if c = '"' then splitQuotedFrom sep out (cur ++ [c]) (!inQuotes) false s
    else if c = sep ∧ inQuotes = false then splitQuotedFrom sep (out ++ [cur]) [] inQuotes false s
    else splitQuotedFrom sep out (cur ++ [c]) inQuotes false s

def splitQuoted (s : Text) (sep : Char) : Except Error (List Text) :=
  splitQuotedFrom sep [] [] false false s

/-! ### Extensions -/

structure ExtensionOffer where
  name : Text
  params : List (Text × Option Text)
  deriving DecidableEq

namespace ExtensionOffer

def param (offer : ExtensionOffer) (name : Text) : Option (Option Text) :=
  (offer.params.find? fun p => eqIgnoreAsciiCase p.1 name).map (·.2)

def hasParam (offer : ExtensionOffer) (name : Text) : Bool := (offer.param name).isSome

end ExtensionOffer

def unquote (v : Text) : Text :=
  if 2 ≤ v.length ∧ v.head? = some '"' ∧ v.getLast? = some '"' then (v.drop 1).dropLast else v

def parseParam (p : Text) : Except Error (Text × Option Text) :=
  match Str.splitOnce '=' p with
  | some (k, v) =>
    let v := unquote (trim v)
    if isToken v then .ok (toAsciiLowercase (trim k), some v)
    else .error (Error.protocol "websocket: invalid extension parameter value")
  | none => .ok (toAsciiLowercase p, none)

def parseParams : List Text → List (Text × Option Text) → Except Error (List (Text × Option Text))
  | [], params => .ok params
  | p :: parts, params =>
    let p := trim p
    if p.isEmpty then parseParams parts params
    else
      match parseParam p with
      | .error e => .error e
      | .ok (k, v) =>
        if isToken k = false then .error (Error.protocol "websocket: invalid extension parameter")
        else if params.any fun q => q.1 = k then
          .error (Error.protocol "websocket: duplicate extension parameter")
        else parseParams parts (params ++ [(k, v)])

def parseEntry (entry : Text) : Except Error ExtensionOffer :=
  match splitQuoted entry ';' with
  | .error e => .error e
  | .ok parts =>
    let name := toAsciiLowercase (trim (parts.headD []))
    if isToken name = false then .error (Error.protocol "websocket: invalid extension token")
    else
      match parseParams parts.tail [] with
      | .error e => .error e
      | .ok params => .ok ⟨name, params⟩

def parseEntries : List Text → List ExtensionOffer → Except Error (List ExtensionOffer)
  | [], out => .ok out
  | entry :: entries, out =>
    let entry := trim entry
    if entry.isEmpty then parseEntries entries out
    else
      match parseEntry entry with
      | .error e => .error e
      | .ok offer => parseEntries entries (out ++ [offer])

def parseExtensionValue (text : Text) : Except Error (List ExtensionOffer) :=
  match splitQuoted text ',' with
  | .error e => .error e
  | .ok entries => parseEntries entries []

/-! ### Parameters -/

def permessageDeflate : Text := "permessage-deflate".toList

def serverNoContextTakeover : Text := "server_no_context_takeover".toList

def clientNoContextTakeover : Text := "client_no_context_takeover".toList

def serverMaxWindowBits : Text := "server_max_window_bits".toList

def clientMaxWindowBits : Text := "client_max_window_bits".toList

structure PerMessageDeflate where
  serverNoContextTakeover : Bool := false
  clientNoContextTakeover : Bool := false
  serverMaxWindowBits : ℕ := 15
  clientMaxWindowBits : ℕ := 15
  deriving DecidableEq

structure PmDeflatePolicy where
  enabled : Bool := true
  maxServerWindowBits : ℕ := 15
  maxClientWindowBits : ℕ := 15
  preferNoContextTakeover : Bool := false
  advertiseNoContextTakeover : Bool := true

structure PmDeflatePolicy.InRange (policy : PmDeflatePolicy) : Prop where
  server : 8 ≤ policy.maxServerWindowBits ∧ policy.maxServerWindowBits ≤ 15
  client : 8 ≤ policy.maxClientWindowBits ∧ policy.maxClientWindowBits ≤ 15

def parseWindowBits (value : Option Text) (name : String) : Except Error ℕ :=
  match value with
  | none => .error (Error.protocol ("websocket: " ++ name ++ " requires a value"))
  | some v =>
    if v.isEmpty || !v.all isDigit || (1 < v.length ∧ v.head? = some '0') then
      .error (Error.protocol ("websocket: invalid " ++ name))
    else
      match parseU8 v with
      | none => .error (Error.protocol ("websocket: invalid " ++ name))
      | some bits =>
        if 8 ≤ bits ∧ bits ≤ 15 then .ok bits
        else .error (Error.protocol ("websocket: " ++ name ++ " must be 8..=15"))

/-- Whether `negotiate` knows a parameter in this form. -/
def knownParam (p : Text × Option Text) : Bool :=
  let takesValue := p.1 = serverMaxWindowBits ∨ p.1 = clientMaxWindowBits
  ([serverNoContextTakeover, clientNoContextTakeover, serverMaxWindowBits,
    clientMaxWindowBits].contains p.1) && (takesValue || p.2.isNone)

def selectServerBits (offer : ExtensionOffer) (policy : PmDeflatePolicy) : Option ℕ :=
  match offer.param serverMaxWindowBits with
  | some v =>
    match parseWindowBits v "server_max_window_bits" with
    | .ok bits => some (min bits policy.maxServerWindowBits)
    | .error _ => none
  | none => some policy.maxServerWindowBits

def selectClientBits (offer : ExtensionOffer) (policy : PmDeflatePolicy) : Option ℕ :=
  match offer.param clientMaxWindowBits with
  | some (some text) =>
    match parseWindowBits (some text) "client_max_window_bits" with
    | .ok bits => some (min bits policy.maxClientWindowBits)
    | .error _ => none
  | some none => some (min policy.maxClientWindowBits policy.maxClientWindowBits)
  | none => some 15

def negotiate (offer : ExtensionOffer) (policy : PmDeflatePolicy) : Option PerMessageDeflate :=
  if policy.enabled = false ∨ offer.name ≠ permessageDeflate then none
  else if offer.params.all knownParam = false then none
  else
    match selectServerBits offer policy, selectClientBits offer policy with
    | some server, some client => some
      { serverMaxWindowBits := server
        clientMaxWindowBits := client
        serverNoContextTakeover := offer.hasParam serverNoContextTakeover ||
          policy.preferNoContextTakeover || policy.advertiseNoContextTakeover
        clientNoContextTakeover := offer.hasParam clientNoContextTakeover ||
          policy.preferNoContextTakeover }
    | _, _ => none

def responseHeader (p : PerMessageDeflate) : Text :=
  permessageDeflate ++
    (if p.serverNoContextTakeover then "; ".toList ++ serverNoContextTakeover else []) ++
    (if p.clientNoContextTakeover then "; ".toList ++ clientNoContextTakeover else []) ++
    (if p.serverMaxWindowBits ≠ 15 then
      "; ".toList ++ serverMaxWindowBits ++ ['='] ++ Nat.toDigits 10 p.serverMaxWindowBits else []) ++
    (if p.clientMaxWindowBits ≠ 15 then
      "; ".toList ++ clientMaxWindowBits ++ ['='] ++ Nat.toDigits 10 p.clientMaxWindowBits else [])

def responseServerBits (offer : ExtensionOffer) (value : Option Text) : Except Error ℕ :=
  match parseWindowBits value "server_max_window_bits" with
  | .error e => .error e
  | .ok bits =>
    match offer.param serverMaxWindowBits with
    | some (some offered) =>
      match parseU8 offered with
      | none => .error (Error.protocol "websocket: bad offer")
      | some offered =>
        if offered < bits then .error (Error.protocol "websocket: server window larger than offered")
        else .ok bits
    | _ => .ok bits

def responseClientBits (offer : ExtensionOffer) (policy : PmDeflatePolicy) (value : Option Text) :
    Except Error ℕ :=
  if offer.hasParam clientMaxWindowBits = false then
    .error (Error.protocol "websocket: client_max_window_bits was not offered")
  else
    match parseWindowBits value "client_max_window_bits" with
    | .error e => .error e
    | .ok bits =>
      let offered := match offer.param clientMaxWindowBits with
        | some (some text) => parseU8 text
        | _ => some 15
      match offered with
      | none => .error (Error.protocol "websocket: malformed client_max_window_bits offer")
      | some offered => .ok (min bits (min (min policy.maxClientWindowBits 15) offered))

/-- The loop of `from_response` over the parameters. -/
def fromParams (offer : ExtensionOffer) (policy : PmDeflatePolicy) :
    List (Text × Option Text) → PerMessageDeflate → Except Error PerMessageDeflate
  | [], out => .ok out
  | (name, value) :: params, out =>
    if name = serverNoContextTakeover then
      if value.isSome then .error (Error.protocol "websocket: parameter takes no value")
      else fromParams offer policy params { out with serverNoContextTakeover := true }
    else if name = clientNoContextTakeover then
      if value.isSome then .error (Error.protocol "websocket: parameter takes no value")
      else fromParams offer policy params { out with clientNoContextTakeover := true }
    else if name = serverMaxWindowBits then
      match responseServerBits offer value with
      | .error e => .error e
      | .ok bits => fromParams offer policy params { out with serverMaxWindowBits := bits }
    else if name = clientMaxWindowBits then
      match responseClientBits offer policy value with
      | .error e => .error e
      | .ok bits => fromParams offer policy params { out with clientMaxWindowBits := bits }
    else .error (Error.protocol "websocket: unknown permessage-deflate parameter")

def fromResponse (offer response : ExtensionOffer) (policy : PmDeflatePolicy) :
    Except Error PerMessageDeflate :=
  if response.name ≠ permessageDeflate then
    .error (Error.protocol "websocket: unexpected extension in response")
  else if offer.name ≠ permessageDeflate then
    .error (Error.protocol "websocket: server selected an extension that was not offered")
  else fromParams offer policy response.params {}

structure CompressionParams where
  sendWindowBits : ℕ := 15
  sendNoContextTakeover : Bool := false
  recvWindowBits : ℕ := 15
  recvNoContextTakeover : Bool := false
  deriving DecidableEq

def serverView (p : PerMessageDeflate) : CompressionParams :=
  { sendWindowBits := p.serverMaxWindowBits
    sendNoContextTakeover := p.serverNoContextTakeover
    recvWindowBits := p.clientMaxWindowBits
    recvNoContextTakeover := p.clientNoContextTakeover }

def clientView (p : PerMessageDeflate) : CompressionParams :=
  { sendWindowBits := p.clientMaxWindowBits
    sendNoContextTakeover := p.clientNoContextTakeover
    recvWindowBits := p.serverMaxWindowBits
    recvNoContextTakeover := p.serverNoContextTakeover }

/-- The compressor that a `FrameWriter` sets up. -/
def newDeflater (params : CompressionParams) : Deflater :=
  (({} : Deflater).setThreshold 64).setWindowBits params.sendWindowBits

/-- The decompressor that a `Session` sets up. -/
def newInflater (params : CompressionParams) : Inflater := Inflater.new params.recvWindowBits

/-- Messages through one side's compressor and the other side's decompressor: each message that
is compressed, with what the receiver makes of it. A failure ends the connection. -/
def exchange (maxOut : ℕ) :
    Deflater → Inflater → List (List UInt8) → List (List UInt8 × Except Error (List UInt8))
  | _, _, [] => []
  | d, inf, message :: messages =>
    match d.deflateMessage message with
    | (none, d) => exchange maxOut d inf messages
    | (some encoded, d) =>
      match inf.inflateMessage encoded maxOut with
      | (.error e, _) => [(message, .error e)]
      | (.ok out, inf) => (message, .ok out) :: exchange maxOut d inf messages

def Decodes (sender receiver : CompressionParams) (maxOut : ℕ) (messages : List (List UInt8)) :
    Prop :=
  ∀ p ∈ exchange maxOut (newDeflater sender) (newInflater receiver) messages, p.2 = .ok p.1

/-- The receiver's window is the largest one, or no message is longer than 2^32 octets. -/
def Reaches (receiver : CompressionParams) (messages : List (List UInt8)) : Prop :=
  15 ≤ receiver.recvWindowBits ∨ ∀ m ∈ messages, m.length ≤ 2 ^ 32

structure Agree (server client : CompressionParams) : Prop where
  serverWindow : server.sendWindowBits ≤ client.recvWindowBits
  clientWindow : client.sendWindowBits ≤ server.recvWindowBits
  serverContext : client.recvNoContextTakeover = true → server.sendNoContextTakeover = true
  clientContext : server.recvNoContextTakeover = true → client.sendNoContextTakeover = true

/-! ### Messages -/

variable {value : Option Text} {messages : List (List UInt8)} {selected p : PerMessageDeflate}
variable {maxOut : ℕ} {s : Text}

theorem exchange_ok (hout : ∀ m ∈ messages, m.length ≤ maxOut) {d : Deflater} (hd : d.Valid)
    {inf : Inflater} (hsmall : ∀ m ∈ messages, 15 ≤ inf.windowBits ∨ m.length ≤ 2^32)
    (hbits : d.windowBits ≤ inf.windowBits) : ∀ p ∈ exchange maxOut d inf messages, p.2 = .ok p.1 := by
  induction messages generalizing d inf with
  | nil =>
    intro p hp
    cases hp
  | cons m ms ih =>
    obtain ⟨hm,hms⟩ := forall_mem_cons.1 hsmall
    obtain ⟨hfirst,hrest⟩ := forall_mem_cons.1 hout
    obtain ⟨hvalid,hkept,-⟩ := hd.deflateMessage m
    rw [exchange]
    rcases hcode : d.deflateMessage m with ⟨_ | encoded,d'⟩
    · rw [hcode] at hvalid hkept
      exact ih hrest hvalid hms (hkept.trans_le hbits)
    rw [hcode] at hvalid hkept
    dsimp only
    rw [Deflate.inflateMessage_deflateMessage hd hcode hm hbits hfirst]
    refine forall_mem_cons.2 ⟨rfl,ih hrest hvalid ?_ ?_⟩
    · rwa [inf.windowBits_absorb]
    · rw [inf.windowBits_absorb]
      exact hkept.trans_le hbits

theorem newDeflater_valid (params : CompressionParams) :
    (newDeflater params).Valid ∧
      (newDeflater params).windowBits = Deflate.clampBits params.sendWindowBits ∧
      (newDeflater params).threshold = 64 := by
  refine ⟨(Deflater.valid_default.setThreshold 64).setWindowBits _,?_,?_⟩
  · simp only [newDeflater,Deflater.setWindowBits]
    split_ifs with h
    · rfl
    · exact (not_not.1 h).symm
  · simp only [newDeflater,Deflater.setWindowBits]
    split_ifs <;> rfl

/-- A receiver whose window is at least the sender's decompresses what the sender compresses. -/
theorem decodes_of_le {sender receiver : CompressionParams}
    (h : sender.sendWindowBits ≤ receiver.recvWindowBits)
    (hout : ∀ m ∈ messages, m.length ≤ maxOut) (hsmall : Reaches receiver messages) :
    Decodes sender receiver maxOut messages := by
  obtain ⟨hvalid,hbits,-⟩ := newDeflater_valid sender
  refine exchange_ok hout hvalid (fun m hm => hsmall.imp ?_ fun hsmall => hsmall m hm) ?_
  · simp only [newInflater,Inflater.new,Deflate.clampBits]
    omega
  · rw [hbits]
    simp only [newInflater,Inflater.new,Deflate.clampBits]
    omega

/-! ### The header -/

def responseParams (p : PerMessageDeflate) : List (Text × Option Text) :=
  (if p.serverNoContextTakeover then [(serverNoContextTakeover, none)] else []) ++
    ((if p.clientNoContextTakeover then [(clientNoContextTakeover, none)] else []) ++
    ((if p.serverMaxWindowBits ≠ 15 then
      [(serverMaxWindowBits, some (Nat.toDigits 10 p.serverMaxWindowBits))] else []) ++
    (if p.clientMaxWindowBits ≠ 15 then
      [(clientMaxWindowBits, some (Nat.toDigits 10 p.clientMaxWindowBits))] else [])))

structure PerMessageDeflate.InRange (p : PerMessageDeflate) : Prop where
  server : 8 ≤ p.serverMaxWindowBits ∧ p.serverMaxWindowBits ≤ 15
  client : 8 ≤ p.clientMaxWindowBits ∧ p.clientMaxWindowBits ≤ 15

def renderParam : Text × Option Text → Text
  | (name, none) => ' ' :: name
  | (name, some v) => ' ' :: (name ++ '=' :: v)

theorem responseHeader_eq (p : PerMessageDeflate) : responseHeader p =
    permessageDeflate ++ (responseParams p).flatMap fun q => ';' :: renderParam q := by
  have hsep : "; ".toList = [';',' '] := rfl
  rw [responseHeader,responseParams,hsep]
  split_ifs <;> simp [renderParam]

def Readable (q : Text × Option Text) : Prop :=
  (∀ c ∈ renderParam q, c ≠ '"' ∧ c ≠ ',' ∧ c ≠ ';') ∧
    (∀ c ∈ (renderParam q).getLast?, isWhitespace c = false) ∧
    (parseParam (trim (renderParam q))).toOption = some q ∧
    (trim (renderParam q)).isEmpty = false ∧ isToken q.1 = true

instance (q : Text × Option Text) : Decidable (Readable q) :=
  decidable_of_iff
    (((renderParam q).all fun c => c ≠ '"' ∧ c ≠ ',' ∧ c ≠ ';') = true ∧
      ((renderParam q).getLast?.all fun c => !isWhitespace c) = true ∧
      (parseParam (trim (renderParam q))).toOption = some q ∧
      (trim (renderParam q)).isEmpty = false ∧ isToken q.1 = true) (by
    simp only [Readable, List.all_eq_true, Option.all_eq_true, decide_eq_true_eq,
      Bool.not_eq_true', Option.mem_def])

theorem readable_responseParams (hp : p.InRange) :
    ∀ q ∈ responseParams p, Readable q := by
  have hcontext : Readable (serverNoContextTakeover,none) ∧
      Readable (clientNoContextTakeover,none) := by decide
  have hbits : ∀ i < 8, Readable (serverMaxWindowBits,some (Nat.toDigits 10 (8+i))) ∧
      Readable (clientMaxWindowBits,some (Nat.toDigits 10 (8+i))) := by decide
  obtain ⟨i,hi⟩ := Nat.exists_eq_add_of_le hp.server.1
  obtain ⟨j,hj⟩ := Nat.exists_eq_add_of_le hp.client.1
  have hserver := (hbits i (by have := hp.server.2; omega)).1
  have hclient := (hbits j (by have := hp.client.2; omega)).2
  rw [← hi] at hserver
  rw [← hj] at hclient
  intro q hq
  simp only [responseParams,mem_append,mem_ite_nil_right,mem_singleton] at hq
  rcases hq with ⟨-,rfl⟩ | ⟨-,rfl⟩ | ⟨-,rfl⟩ | ⟨-,rfl⟩
  · exact hcontext.1
  · exact hcontext.2
  · exact hserver
  · exact hclient

theorem nodup_names : [serverNoContextTakeover,clientNoContextTakeover,serverMaxWindowBits,
    clientMaxWindowBits].Nodup := by
  decide

theorem nodup_responseParams (p : PerMessageDeflate) : ((responseParams p).map (·.1)).Nodup := by
  refine nodup_names.sublist ?_
  have hone : ∀ (b : Prop) [Decidable b] (q : Text × Option Text),
      ((if b then [q] else []).map (·.1)).Sublist [q.1] := by
    intro b _ q
    split_ifs
    · exact List.Sublist.refl _
    · exact nil_sublist _
  rw [responseParams,map_append,map_append,map_append]
  exact (hone _ _).append ((hone _ _).append ((hone _ _).append (hone _ _)))

theorem splitQuotedFrom_plain {sep : Char} (h : ∀ c ∈ s, c ≠ '"' ∧ c ≠ sep)
    (out : List Text) (cur rest : Text) :
    splitQuotedFrom sep out cur false false (s ++ rest) =
      splitQuotedFrom sep out (cur ++ s) false false rest := by
  induction s generalizing cur with
  | nil => rw [nil_append,append_nil]
  | cons c s ih =>
    obtain ⟨⟨hquote,hsep⟩,hs⟩ := forall_mem_cons.1 h
    rw [cons_append,splitQuotedFrom,if_neg (by decide),if_neg (by simp),if_neg hquote,
      if_neg (fun hc => hsep hc.1),ih hs,append_assoc,singleton_append]

theorem splitQuotedFrom_parts {parts : List Text} (h : ∀ s ∈ parts, ∀ c ∈ s, c ≠ '"' ∧ c ≠ ';')
    (out : List Text) (cur : Text) :
    splitQuotedFrom ';' out cur false false (parts.flatMap fun s => ';' :: s) =
      .ok (out ++ cur :: parts) := by
  induction parts generalizing out cur with
  | nil => rfl
  | cons s parts ih =>
    obtain ⟨hs,hparts⟩ := forall_mem_cons.1 h
    rw [flatMap_cons,cons_append,splitQuotedFrom,if_neg (by decide),
      if_neg (by decide),if_neg (by decide),if_pos ⟨rfl,rfl⟩,splitQuotedFrom_plain hs,
      nil_append,ih hparts,append_assoc,singleton_append]

theorem parseParams_render {params : List (Text × Option Text)} (h : ∀ q ∈ params, Readable q)
    {done : List (Text × Option Text)} (hnodup : ((done ++ params).map (·.1)).Nodup) :
    parseParams (params.map renderParam) done = .ok (done ++ params) := by
  induction params generalizing done with
  | nil => rw [append_nil]; rfl
  | cons q params ih =>
    obtain ⟨⟨-,-,hparse,hsome,htoken⟩,hparams⟩ := forall_mem_cons.1 h
    have hparse : parseParam (trim (renderParam q)) = .ok q := by
      generalize parseParam _ = r at hparse ⊢
      cases r with
      | error e => cases hparse
      | ok a => exact congrArg Except.ok (Option.some.inj hparse)
    have hnew : (done.any fun r => decide (r.1 = q.1)) = false := by
      rw [any_eq_false]
      intro r hr heq
      rw [map_append,nodup_append'] at hnodup
      exact hnodup.2.2 (mem_map_of_mem hr) (by
        rw [of_decide_eq_true heq]
        exact mem_map_of_mem mem_cons_self)
    simp only [map_cons,parseParams,hsome,hparse,htoken,hnew,Bool.false_eq_true,
      Bool.true_eq_false,if_false]
    rw [ih hparams (by simpa using hnodup),append_assoc,singleton_append]

theorem getLast_header {params : List (Text × Option Text)} (h : ∀ q ∈ params, Readable q)
    (hs : ∀ c ∈ s.getLast?, isWhitespace c = false) :
    ∀ c ∈ (s ++ params.flatMap fun q => ';' :: renderParam q).getLast?,
      isWhitespace c = false := by
  induction params generalizing s with
  | nil => simpa using hs
  | cons q params ih =>
    obtain ⟨hq,hparams⟩ := forall_mem_cons.1 h
    rw [flatMap_cons,← append_assoc]
    refine ih hparams ?_
    have hne : renderParam q ≠ [] := by
      obtain ⟨name,_ | v⟩ := q <;> exact cons_ne_nil _ _
    rw [getLast?_append_of_ne_nil _ (cons_ne_nil _ _),getLast?_cons_of_ne_nil hne]
    exact hq.2.1

theorem parse_responseHeader (hp : p.InRange) :
    parseExtensionValue (responseHeader p) = .ok [⟨permessageDeflate,responseParams p⟩] := by
  have hread := readable_responseParams hp
  have hplain : ∀ c ∈ permessageDeflate, c ≠ '"' ∧ c ≠ ',' ∧ c ≠ ';' := by
    have hall : permessageDeflate.all (fun c => c ≠ '"' ∧ c ≠ ',' ∧ c ≠ ';') = true := by
      decide
    simpa only [all_eq_true,decide_eq_true_eq] using hall
  have hends : permessageDeflate.head? = some 'p' ∧ permessageDeflate.getLast? = some 'e' := by
    decide
  have hhead : ∀ c ∈ permessageDeflate.head?, isWhitespace c = false := by
    intro c hc
    cases hends.1.symm.trans hc
    rfl
  have hlast : ∀ c ∈ permessageDeflate.getLast?, isWhitespace c = false := by
    intro c hc
    cases hends.2.symm.trans hc
    rfl
  obtain ⟨hlower,htoken,hne⟩ : toAsciiLowercase (trim permessageDeflate) = permessageDeflate ∧
      isToken permessageDeflate = true ∧ permessageDeflate ≠ [] := by decide
  have hcomma : splitQuoted (responseHeader p) ',' = .ok [responseHeader p] := by
    have hall : ∀ c ∈ responseHeader p, c ≠ '"' ∧ c ≠ ',' := by
      rw [responseHeader_eq]
      intro c hc
      rcases mem_append.1 hc with hc | hc
      · exact ⟨(hplain c hc).1,(hplain c hc).2.1⟩
      · obtain ⟨q,hq,hc⟩ := mem_flatMap.1 hc
        rcases mem_cons.1 hc with rfl | hc
        · decide
        · exact ⟨((hread q hq).1 c hc).1,((hread q hq).1 c hc).2.1⟩
    have h := splitQuotedFrom_plain hall [] [] []
    rw [append_nil] at h
    rw [splitQuoted,h]
    rfl
  have hsemi : splitQuoted (responseHeader p) ';' =
      .ok (permessageDeflate :: (responseParams p).map renderParam) := by
    have hparts : ∀ s ∈ (responseParams p).map renderParam, ∀ c ∈ s, c ≠ '"' ∧ c ≠ ';' := by
      intro s hs c hc
      obtain ⟨q,hq,rfl⟩ := mem_map.1 hs
      exact ⟨((hread q hq).1 c hc).1,((hread q hq).1 c hc).2.2⟩
    have h := splitQuotedFrom_parts hparts [] permessageDeflate
    rw [flatMap_map] at h
    rw [splitQuoted,responseHeader_eq,
      splitQuotedFrom_plain (fun c hc => ⟨(hplain c hc).1,(hplain c hc).2.2⟩)]
    exact h
  have htrim : trim (responseHeader p) = responseHeader p := by
    rw [responseHeader_eq]
    refine trim_eq ?_ (getLast_header hread hlast)
    exact hhead
  have hentry : parseEntry (responseHeader p) = .ok ⟨permessageDeflate,responseParams p⟩ := by
    have hparams : parseParams ((responseParams p).map renderParam) [] =
        .ok ([] ++ responseParams p) :=
      parseParams_render hread (by simpa using nodup_responseParams p)
    simp [parseEntry,hsemi,hlower,htoken,hparams]
  have hsome : (responseHeader p).isEmpty = false := by
    rw [responseHeader_eq,isEmpty_eq_false_iff]
    exact append_ne_nil_of_left_ne_nil hne _
  simp [parseExtensionValue,hcomma,parseEntries,htrim,hsome,hentry]

variable {bits : ℕ}

theorem parseWindowBits_digits (h : 8 ≤ bits ∧ bits ≤ 15) (name : String) :
    parseWindowBits (some (Nat.toDigits 10 bits)) name = .ok bits := by
  obtain ⟨hlow,hhigh⟩ := h
  interval_cases bits <;> rfl

/-- What is accepted as window bits is in range, and a plain parse gives the same number. -/
theorem parseWindowBits_ok {name : String} (h : parseWindowBits value name = .ok bits) :
    ∃ text, value = some text ∧ parseU8 text = some bits ∧ 8 ≤ bits ∧ bits ≤ 15 := by
  cases value with
  | none => cases h
  | some text =>
    refine ⟨text,rfl,?_⟩
    rw [parseWindowBits] at h
    split_ifs at h with hform
    split at h
    · cases h
    · next n hparse =>
      split_ifs at h with hrange
      cases h
      exact ⟨hparse,hrange⟩

/-! ### Selection -/

variable {offer : ExtensionOffer} {policy : PmDeflatePolicy}

theorem selectServerBits_spec (hpolicy : policy.InRange) (h : selectServerBits offer policy = some bits) :
    (8 ≤ bits ∧ bits ≤ 15) ∧ ∀ text, offer.param serverMaxWindowBits = some (some text) →
      ∃ offered, parseU8 text = some offered ∧ bits ≤ offered := by
  obtain ⟨hlow,hhigh⟩ := hpolicy.server
  rw [selectServerBits] at h
  split at h
  · next v hparam =>
    split at h
    · next n hbits =>
      cases h
      obtain ⟨text,rfl,hparse,hn⟩ := parseWindowBits_ok hbits
      refine ⟨by omega,fun text' htext => ?_⟩
      cases hparam.symm.trans htext
      exact ⟨n,hparse,min_le_left _ _⟩
    · cases h
  · next hparam =>
    cases h
    exact ⟨hpolicy.server,fun text htext => by cases hparam.symm.trans htext⟩

/-- The client's window is in range; it is 15 unless the client offered the parameter, and then
the number offered can be parsed. -/
theorem selectClientBits_spec (hpolicy : policy.InRange) (h : selectClientBits offer policy = some bits) :
    (8 ≤ bits ∧ bits ≤ 15) ∧ (bits ≠ 15 → offer.hasParam clientMaxWindowBits = true) ∧
      ∀ text, offer.param clientMaxWindowBits = some (some text) →
        ∃ offered, parseU8 text = some offered := by
  obtain ⟨hlow,hhigh⟩ := hpolicy.client
  rw [selectClientBits] at h
  rw [ExtensionOffer.hasParam]
  split at h
  · next text hparam =>
    split at h
    · next n hbits =>
      cases h
      obtain ⟨text',htext',hparse,hn⟩ := parseWindowBits_ok hbits
      cases htext'
      refine ⟨by omega,fun _ => by rw [hparam]; rfl,fun text' htext => ?_⟩
      cases hparam.symm.trans htext
      exact ⟨n,hparse⟩
    · cases h
  · next hparam =>
    cases h
    exact ⟨by omega,fun _ => by rw [hparam]; rfl,fun text htext => by
      cases hparam.symm.trans htext⟩
  · next hparam =>
    cases h
    exact ⟨by omega,fun h15 => absurd rfl h15,fun text htext => by
      cases hparam.symm.trans htext⟩

theorem negotiate_spec (h : negotiate offer policy = some selected) :
    offer.name = permessageDeflate ∧
      selectServerBits offer policy = some selected.serverMaxWindowBits ∧
      selectClientBits offer policy = some selected.clientMaxWindowBits := by
  rw [negotiate] at h
  split_ifs at h with hname hparams
  rw [not_or,not_not] at hname
  split at h
  · next server client hserver hclient =>
    cases h
    exact ⟨hname.2,hserver,hclient⟩
  · cases h

/-! ### The response -/

theorem responseServerBits_selected (hrange : 8 ≤ bits ∧ bits ≤ 15)
    (hoffer : ∀ text, offer.param serverMaxWindowBits = some (some text) →
      ∃ offered, parseU8 text = some offered ∧ bits ≤ offered) :
    responseServerBits offer (some (Nat.toDigits 10 bits)) = .ok bits := by
  rw [responseServerBits,parseWindowBits_digits hrange]
  rcases hparam : offer.param serverMaxWindowBits with _ | _ | text
  · rfl
  · rfl
  · obtain ⟨offered,hparse,hle⟩ := hoffer text hparam
    dsimp only
    rw [hparse]
    exact if_neg (by omega)

theorem responseClientBits_selected (policy : PmDeflatePolicy)
    (hrange : 8 ≤ bits ∧ bits ≤ 15) (hhas : offer.hasParam clientMaxWindowBits = true)
    (hoffer : ∀ text, offer.param clientMaxWindowBits = some (some text) →
      ∃ offered, parseU8 text = some offered) :
    ∃ agreed ≤ bits,
      responseClientBits offer policy (some (Nat.toDigits 10 bits)) = .ok agreed := by
  rw [responseClientBits,if_neg (by rw [hhas]; decide),parseWindowBits_digits hrange]
  rcases hparam : offer.param clientMaxWindowBits with _ | _ | text
  · exact ⟨_,min_le_left _ _,rfl⟩
  · exact ⟨_,min_le_left _ _,rfl⟩
  · obtain ⟨offered,hparse⟩ := hoffer text hparam
    dsimp only
    rw [hparse]
    exact ⟨_,min_le_left _ _,rfl⟩

/-- The client accepts the response: it takes over what was selected, with a window of its own
that is no larger than the selected one. -/
theorem fromParams_selected {server : PmDeflatePolicy} (client : PmDeflatePolicy)
    (hserver : server.InRange) (h : negotiate offer server = some selected) :
    ∃ bits ≤ selected.clientMaxWindowBits, fromParams offer client (responseParams selected) {} =
      .ok { selected with clientMaxWindowBits := bits } := by
  obtain ⟨-,hs,hc⟩ := negotiate_spec h
  obtain ⟨hsrange,hsoffer⟩ := selectServerBits_spec hserver hs
  obtain ⟨hcrange,hchas,hcoffer⟩ := selectClientBits_spec hserver hc
  obtain ⟨s,c,sbits,cbits⟩ := selected
  have hclientPart : ∀ out : PerMessageDeflate, out.clientMaxWindowBits = 15 →
      ∃ bits ≤ cbits, fromParams offer client (if cbits ≠ 15 then
        [(clientMaxWindowBits,some (Nat.toDigits 10 cbits))] else []) out =
          .ok { out with clientMaxWindowBits := bits } := by
    intro out hout
    by_cases h15 : cbits = 15
    · rw [if_neg (not_not.2 h15)]
      refine ⟨15,h15.ge,?_⟩
      rw [fromParams,← hout]
    · obtain ⟨agreed,hle,hok⟩ := responseClientBits_selected client hcrange
        (hchas h15) hcoffer
      rw [if_pos h15,fromParams,if_neg (by decide),if_neg (by decide),if_neg (by decide),
        if_pos rfl,hok]
      exact ⟨agreed,hle,rfl⟩
  have hserverPart : ∀ out : PerMessageDeflate, out.serverMaxWindowBits = 15 →
      ∀ params, fromParams offer client ((if sbits ≠ 15 then
        [(serverMaxWindowBits,some (Nat.toDigits 10 sbits))] else []) ++ params) out =
          fromParams offer client params { out with serverMaxWindowBits := sbits } := by
    intro out hout params
    by_cases h15 : sbits = 15
    · rw [if_neg (not_not.2 h15),h15,← hout]
      rfl
    · rw [if_pos h15,cons_append,fromParams,if_neg (by decide),if_neg (by decide),if_pos rfl,
        responseServerBits_selected hsrange hsoffer]
      rfl
  obtain ⟨bits,hle,hok⟩ := hclientPart ⟨s,c,sbits,15⟩ rfl
  rw [← hserverPart ⟨s,c,15,15⟩ rfl] at hok
  refine ⟨bits,hle,?_⟩
  cases s <;> cases c <;> exact hok

/-- **Negotiation agrees.** For every offer the server selects from, the client reads the
response back and accepts it, the parameters of the two sides fit, and in both directions every
compressed message is decompressed, beyond 2^32 octets only with the largest window. -/
theorem negotiation_agrees {offer : ExtensionOffer} {server client : PmDeflatePolicy}
    (hserver : server.InRange) {selected : PerMessageDeflate}
    (h : negotiate offer server = some selected) :
    ∃ response agreed, parseExtensionValue (responseHeader selected) = .ok [response] ∧
      fromResponse offer response client = .ok agreed ∧
      Agree (serverView selected) (clientView agreed) ∧
      ∀ maxOut messages, (∀ m ∈ messages, m.length ≤ maxOut) →
        (Reaches (clientView agreed) messages →
          Decodes (serverView selected) (clientView agreed) maxOut messages) ∧
        (Reaches (serverView selected) messages →
          Decodes (clientView agreed) (serverView selected) maxOut messages) := by
  obtain ⟨hname,hs,hc⟩ := negotiate_spec h
  have hrange : selected.InRange :=
    ⟨(selectServerBits_spec hserver hs).1,(selectClientBits_spec hserver hc).1⟩
  obtain ⟨bits,hbits,hparams⟩ := fromParams_selected client hserver h
  have hagree : Agree (serverView selected)
      (clientView { selected with clientMaxWindowBits := bits }) := ⟨le_rfl,hbits,id,id⟩
  refine ⟨_,_,parse_responseHeader hrange,?_,hagree,?_⟩
  · rw [fromResponse,if_neg (not_not.2 rfl),if_neg (not_not.2 hname)]
    exact hparams
  · intro maxOut messages hout
    exact ⟨decodes_of_le hagree.serverWindow hout,decodes_of_le hagree.clientWindow hout⟩

def smallWindowOffer : ExtensionOffer :=
  ⟨permessageDeflate, [(serverMaxWindowBits, some ['8'])]⟩

def smallWindow : PerMessageDeflate := ⟨true, false, 8, 15⟩

theorem negotiate_smallWindowOffer : negotiate smallWindowOffer {} = some smallWindow := by
  decide

theorem negotiation_agrees_smallWindow :
    ∃ response agreed, parseExtensionValue (responseHeader smallWindow) = .ok [response] ∧
      fromResponse smallWindowOffer response {} = .ok agreed ∧
      Agree (serverView smallWindow) (clientView agreed) ∧
      ∀ maxOut messages, (∀ m ∈ messages, m.length ≤ maxOut) →
        (Reaches (clientView agreed) messages →
          Decodes (serverView smallWindow) (clientView agreed) maxOut messages) ∧
        (Reaches (serverView smallWindow) messages →
          Decodes (clientView agreed) (serverView smallWindow) maxOut messages) :=
  negotiation_agrees ⟨by decide,by decide⟩ negotiate_smallWindowOffer

/-- Windows of 256 octets are negotiated, and the client cannot decompress the first message of
the server. -/
theorem negotiated_message_rejected :
    negotiate smallWindowOffer {} = some smallWindow ∧
      (parseExtensionValue (responseHeader smallWindow)).toOption =
        some [⟨permessageDeflate, responseParams smallWindow⟩] ∧
      (fromResponse smallWindowOffer ⟨permessageDeflate, responseParams smallWindow⟩ {}).toOption =
        some smallWindow ∧
      ¬ Decodes (serverView smallWindow) (clientView smallWindow) wrapMessage.length
        [wrapMessage] := by
  refine ⟨negotiate_smallWindowOffer,by decide,by decide,?_⟩
  intro hdecodes
  obtain ⟨hvalid,hbits,hthreshold⟩ := newDeflater_valid (serverView smallWindow)
  obtain ⟨encoded,d',hcode,hreject⟩ := Deflate.wrapMessage_rejected hvalid hbits
    (hthreshold.trans_le (by decide))
    (show (newInflater (clientView smallWindow)).windowBits = 8 from rfl) le_rfl
  have h := hdecodes (wrapMessage,
    .error (Error.protocol "deflate: back-reference beyond the negotiated window")) (by
      rw [exchange,hcode]
      dsimp only
      rw [hreject]
      exact mem_singleton_self _)
  cases h

end Courierust.Ws
