import Mathlib.Logic.Function.Basic
import Sqwar.Core.StdVector
import Sqwar.Semantics.BoundedLog
import Sqwar.Semantics.Loop

/-!
# Finding a server by mDNS

`Client::Client` asks for servers and gets their addresses in an array of ten on its stack. The
callback that fills the array has no bound, and the count is set only if a socket could be opened.
-/

set_option autoImplicit false

namespace Sqwar.Network

open Semantics

/-- `MDNS_RECORDTYPE_A`. -/
def mdnsRecordtypeA : ℕ := 1

/-- `struct sockaddr_in`. -/
structure SockaddrIn where
  sinFamily : ℕ
  sinPort : ℕ
  sAddr : List UInt8
  deriving DecidableEq, Repr

/-- `AF_INET`. -/
def afInet : ℕ := 2

/-- `mdns_record_parse_a`. -/
def mdnsRecordParseA (buffer : List UInt8) (offset length : ℕ) : SockaddrIn :=
  if buffer.length ≥ offset + length ∧ length = 4 then ⟨afInet, 0, (buffer.drop offset).take 4⟩
  else ⟨afInet, 0, [0, 0, 0, 0]⟩

/-- `struct ipaddr_array`. -/
structure IpaddrArray where
  addr : Fin 10 → SockaddrIn
  count : ℤ

/-- `addr[index] = value`. -/
def IpaddrArray.store (parr : IpaddrArray) (index : ℤ) (value : SockaddrIn) :
    Except Fault IpaddrArray :=
  if inside : 0 ≤ index ∧ index < 10 then
    .ok { parr with addr := Function.update parr.addr ⟨index.toNat, by omega⟩ value }
  else .error .outOfBounds

/-- `addr[index]`. -/
def IpaddrArray.load (parr : IpaddrArray) (index : ℤ) : Except Fault SockaddrIn :=
  if inside : 0 ≤ index ∧ index < 10 then .ok (parr.addr ⟨index.toNat, by omega⟩)
  else .error .outOfBounds

/-- What the callback gets of a record. -/
structure Record where
  rtype : ℕ
  data : List UInt8
  recordOffset : ℕ
  recordLength : ℕ

/-- `get_ipaddr_callback`. -/
def getIpaddrCallback (record : Record) (parr : IpaddrArray) : Except Fault (ℤ × IpaddrArray) :=
  if record.rtype = mdnsRecordtypeA then do
    let addr := mdnsRecordParseA record.data record.recordOffset record.recordLength
    let parr ← parr.store parr.count addr
    return (0, { parr with count := parr.count + 1 })
  else return (0, parr)

/-- `mdns_query_recv` of a packet with these records: one call for each, until a call does not
return zero. -/
def mdnsQueryRecv (callback : Record → IpaddrArray → Except Fault (ℤ × IpaddrArray)) :
    List Record → IpaddrArray → Except Fault (ℕ × IpaddrArray)
  | [], userData => .ok (0, userData)
  | record :: records, userData => do
    let (stop, userData) ← callback record userData
    if stop ≠ 0 then return (1, userData)
    let (parsed, userData) ← mdnsQueryRecv callback records userData
    return (parsed + 1, userData)

/-- What becomes of a query: how many sockets are opened, and the records that each readable socket
delivers every time that `select` reports some. Then it reports none. -/
structure Query where
  numSockets : ℤ
  replies : List (ℕ → Option (List Record))
  fits : numSockets ≤ 32

/-- The loop over the sockets after `select`. -/
def recvAll (numSockets : ℕ) (poutip : IpaddrArray) (readfs : ℕ → Option (List Record)) :
    Except Fault IpaddrArray :=
  (List.range numSockets).foldlM (fun poutip isock =>
    match readfs isock with
    | none => .ok poutip
    | some records => Prod.snd <$> mdnsQueryRecv getIpaddrCallback records poutip) poutip

/-- `send_mdns_query`. -/
def sendMdnsQuery (query : Query) (poutip : IpaddrArray) : Except Fault (ℤ × IpaddrArray) :=
  if query.numSockets ≤ 0 then .ok (-1, poutip)
  else do
    let poutip := { poutip with count := 0 }
    let poutip ← query.replies.foldlM (recvAll query.numSockets.toNat) poutip
    return (0, poutip)

/-- `Client::Client`: the address that it connects to. The array is whatever its stack holds. -/
def newClient (ipv4AddressToString : SockaddrIn → String) (query : Query) (iparray : IpaddrArray) :
    Except Fault (Option String) := do
  let (_, iparray) ← sendMdnsQuery query iparray
  if iparray.count > 0 then
    (List.range iparray.count.toNat).foldlM (fun _ (idx : ℕ) => do
      let addr ← iparray.load idx
      return some (ipv4AddressToString addr)) none
  else return none

/-- The addresses of the A records among these. -/
def addresses (records : List Record) : List SockaddrIn :=
  (records.filter fun record => record.rtype = mdnsRecordtypeA).map fun record =>
    mdnsRecordParseA record.data record.recordOffset record.recordLength

/-- The addresses that one round of replies delivers. -/
def roundAddresses (numSockets : ℕ) (readfs : ℕ → Option (List Record)) : List SockaddrIn :=
  (List.range numSockets).flatMap fun isock => addresses ((readfs isock).getD [])

/-- The addresses that a query receives. -/
def Query.addresses (query : Query) : List SockaddrIn :=
  query.replies.flatMap (roundAddresses query.numSockets.toNat)

/-- The array as a log of addresses. -/
def addrLog : BoundedLog IpaddrArray SockaddrIn Fault where
  Holds received parr := parr.count = received.length ∧
    ∀ idx : Fin 10, idx.val < received.length → received[idx.val]? = some (parr.addr idx)
  capacity := 10
  full := .outOfBounds

variable {received : List SockaddrIn} {parr : IpaddrArray} {query : Query}

/-- One more address is stored if there is room for it. -/
theorem delivers_store (fits : received.length ≤ 10) (holds : addrLog.Holds received parr)
    (value : SockaddrIn) :
    addrLog.Delivers (received ++ [value])
      ((fun parr : IpaddrArray => { parr with count := parr.count + 1 }) <$>
        parr.store parr.count value) := by
  obtain ⟨count, held⟩ := holds
  by_cases room : received.length < 10
  · have inside : 0 ≤ parr.count ∧ parr.count < 10 := by omega
    rw [IpaddrArray.store, dif_pos inside]
    have fits' : (received ++ [value]).length ≤ 10 := by simpa using Nat.succ_le_of_lt room
    refine BoundedLog.delivers_ok fits' ⟨by simp [count], fun idx less => ?_⟩
    have slot : parr.count.toNat = received.length := by omega
    by_cases last : idx.val = received.length
    · have here : idx = ⟨parr.count.toNat, slot ▸ room⟩ := Fin.ext (last.trans slot.symm)
      simp only [← here, Function.update_self, last, List.getElem?_concat_length]
    · have before : idx.val < received.length := by
        rw [List.length_append, List.length_singleton] at less
        omega
      have other : idx ≠ ⟨parr.count.toNat, slot ▸ room⟩ :=
        Fin.ne_of_val_ne fun same => last (same.trans slot)
      simp only [Function.update_of_ne other, List.getElem?_append_left before, held idx before]
  · have outside : ¬ (0 ≤ parr.count ∧ parr.count < 10) := by omega
    rw [IpaddrArray.store, dif_neg outside]
    exact BoundedLog.delivers_error (by simp only [addrLog, List.length_append]; simp; omega)

/-- **Step lemma.** One record adds its address if it is an A record, and nothing else. -/
theorem delivers_getIpaddrCallback (fits : received.length ≤ 10)
    (holds : addrLog.Holds received parr) (record : Record) :
    addrLog.Delivers (received ++ addresses [record])
      (Prod.snd <$> getIpaddrCallback record parr) := by
  by_cases isA : record.rtype = mdnsRecordtypeA
  · have stored := delivers_store fits holds
      (mdnsRecordParseA record.data record.recordOffset record.recordLength)
    simpa [getIpaddrCallback, addresses, isA] using stored
  · have kept := BoundedLog.delivers_ok fits holds
    simpa [getIpaddrCallback, addresses, isA, pure, Except.pure] using kept

/-- The callback never stops the parser. -/
theorem getIpaddrCallback_fst {record : Record} {stop : ℤ} {out : IpaddrArray}
    (called : getIpaddrCallback record parr = .ok (stop, out)) : stop = 0 := by
  unfold getIpaddrCallback at called
  split at called
  · obtain ⟨stored, -, returned⟩ := bind_eq_ok_iff.mp called
    exact (Prod.mk.inj (Except.ok.inj returned)).1.symm
  · exact (Prod.mk.inj (Except.ok.inj called)).1.symm

theorem mdnsQueryRecv_eq_foldlM (records : List Record) (parr : IpaddrArray) :
    Prod.snd <$> mdnsQueryRecv getIpaddrCallback records parr =
      records.foldlM (fun parr record => Prod.snd <$> getIpaddrCallback record parr) parr := by
  induction records generalizing parr with
  | nil => rfl
  | cons record records ih =>
    rw [List.foldlM_cons]
    cases called : getIpaddrCallback record parr with
    | error fault =>
      simp only [mdnsQueryRecv, called]
      rfl
    | ok result =>
      obtain ⟨stop, out⟩ := result
      obtain rfl := getIpaddrCallback_fst called
      change _ = List.foldlM _ out records
      rw [← ih, mdnsQueryRecv, called]
      change Prod.snd <$> (mdnsQueryRecv getIpaddrCallback records out >>= _) = _
      cases mdnsQueryRecv getIpaddrCallback records out <;> rfl

theorem flatMap_addresses (records : List Record) :
    (records.flatMap fun record => addresses [record]) = addresses records := by
  induction records with
  | nil => rfl
  | cons record records ih =>
    rw [List.flatMap_cons, ih, addresses, addresses, addresses, ← List.map_append,
      ← List.filter_append, List.singleton_append]

/-- **A packet** adds its addresses. -/
theorem delivers_mdnsQueryRecv (fits : received.length ≤ 10)
    (holds : addrLog.Holds received parr) (records : List Record) :
    addrLog.Delivers (received ++ addresses records)
      (Prod.snd <$> mdnsQueryRecv getIpaddrCallback records parr) := by
  rw [mdnsQueryRecv_eq_foldlM, ← flatMap_addresses]
  exact BoundedLog.Delivers.foldlM
    (fun received parr record fits holds => delivers_getIpaddrCallback fits holds record) fits holds

/-- **A round** adds those of the sockets that are readable, in the order of the sockets. -/
theorem delivers_recvAll (fits : received.length ≤ 10) (holds : addrLog.Holds received parr)
    (numSockets : ℕ) (readfs : ℕ → Option (List Record)) :
    addrLog.Delivers (received ++ roundAddresses numSockets readfs)
      (recvAll numSockets parr readfs) := by
  refine BoundedLog.Delivers.foldlM (fun received parr isock fits holds => ?_) fits holds
  cases readfs isock with
  | none => simpa [addresses] using BoundedLog.delivers_ok fits holds
  | some records => exact delivers_mdnsQueryRecv fits holds records

/-- **A query** whose sockets could be opened. -/
theorem delivers_sendMdnsQuery (opened : 0 < query.numSockets) (iparray : IpaddrArray) :
    addrLog.Delivers query.addresses (Prod.snd <$> sendMdnsQuery query iparray) := by
  have rounds := @BoundedLog.Delivers.foldlM _ _ _ _ addrLog [] { iparray with count := 0 }
    (recvAll query.numSockets.toNat) (roundAddresses query.numSockets.toNat)
    (fun received parr readfs fits holds => delivers_recvAll fits holds _ readfs) query.replies
    (by simp) ⟨rfl, fun idx less => absurd less (Nat.not_lt_zero _)⟩
  rw [List.nil_append] at rounds
  rw [sendMdnsQuery, if_neg (not_le.mpr opened)]
  simpa [Query.addresses] using rounds

/-- The loop over the first addresses leaves the last of them. -/
theorem foldlM_load (ipv4AddressToString : SockaddrIn → String) (fits : received.length ≤ 10)
    (holds : addrLog.Holds received parr) {m : ℕ} (le : m ≤ received.length) :
    (List.range m).foldlM (fun (_ : Option String) (idx : ℕ) => do
        let addr ← parr.load idx
        return some (ipv4AddressToString addr)) none =
      .ok ((received.take m).getLast?.map ipv4AddressToString) := by
  induction m with
  | zero => simp [pure, Except.pure]
  | succ m ih =>
    have inside : 0 ≤ (m : ℤ) ∧ (m : ℤ) < 10 := by omega
    have loaded : parr.load m = .ok (parr.addr ⟨m, by omega⟩) := dif_pos inside
    have last : received[m]? = some (parr.addr ⟨m, by omega⟩) :=
      holds.2 ⟨m, by omega⟩ (Nat.lt_of_succ_le le)
    rw [List.range_succ, List.foldlM_append, ih (by omega), List.take_add_one, last]
    simp [loaded, bind, Except.bind, pure, Except.pure]

/-- The client connects to the address that came last. -/
theorem newClient_eq (ipv4AddressToString : SockaddrIn → String) (opened : 0 < query.numSockets)
    (fits : query.addresses.length ≤ 10) (iparray : IpaddrArray) :
    newClient ipv4AddressToString query iparray =
      .ok (query.addresses.getLast?.map ipv4AddressToString) := by
  obtain ⟨out, run, holds⟩ := (delivers_sendMdnsQuery opened iparray).of_fits fits
  obtain ⟨⟨ret, out⟩, ran, rfl⟩ := map_eq_ok_iff.mp run
  have count : out.count = query.addresses.length := holds.1
  have loop := foldlM_load ipv4AddressToString fits holds le_rfl
  rw [List.take_length] at loop
  by_cases found : out.count > 0
  · have length : out.count.toNat = query.addresses.length := by omega
    simp only [newClient, ran, bind, Except.bind, if_pos found, length]
    exact loop
  · have empty : query.addresses = [] := List.eq_nil_of_length_eq_zero (by omega)
    simp [newClient, ran, bind, Except.bind, if_neg found, empty, pure, Except.pure]

end Sqwar.Network
