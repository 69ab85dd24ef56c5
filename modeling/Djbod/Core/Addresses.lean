import Djbod.Core.Names

/-!
# Socket addresses

* `parseSocketAddr` : the standard library's reader of an IP address and a port;
* `parseSocketAddr_eq_iff` : the texts that it reads as one address;
* `apart_iff` : the valid documents in which no two active nodes share an address; `shared_address` : one in which two
  do.
-/

namespace Djbod

open Spelling

def splitLast : Name → Option (Name × Name)
  | [] => none
  | c :: rest =>
    match splitLast rest with
    | some (host, port) => some (c :: host, port)
    | none => if c = ':' then some ([], rest) else none

/-- A decimal number below a bound, with any zeros in front. -/
def readNumber (bound : ℕ) (text : Name) : Option ℕ :=
  if text ≠ [] ∧ text.all Char.isDigit ∧ decimal text < bound then some (decimal text) else none

def readOctet (text : Name) : Option ℕ := if text.head? = some '0' → text = ['0'] then readNumber 256 text else none

def readIpv4Addr (text : Name) : Option (List ℕ) :=
  if (text.splitOn '.').length = 4 then (text.splitOn '.').mapM readOctet else none

def readGroup (text : Name) : Option (Fin 65536) :=
  if 1 ≤ text.length ∧ text.length ≤ 4 then
    (text.mapM hexValue).map fun ds => Fin.ofNat _ (FixedWidth.value 16 ds) else none

/-- Groups, the last of which may be two in the spelling of an IPv4 address. -/
def readGroups : List Name → Option (List (Fin 65536))
  | [] => some []
  | [last] =>
    match readIpv4Addr last with
    | some [a, b, c, d] => some [Fin.ofNat _ (a * 256 + b), Fin.ofNat _ (c * 256 + d)]
    | _ => (readGroup last).map fun group => [group]
  | part :: rest => do return (← readGroup part) :: (← readGroups rest)

def splitDouble : Name → Option (Name × Name)
  | [] => none
  | ':' :: ':' :: rest => some ([], rest)
  | c :: rest => (splitDouble rest).map fun (head, tail) => (c :: head, tail)

def colonParts (text : Name) : List Name := if text = [] then [] else text.splitOn ':'

/-- The eight groups of an IPv6 address; a double colon stands for one zero group or more. -/
def readIpv6Addr (text : Name) : Option (List (Fin 65536)) :=
  match splitDouble text with
  | none => (readGroups (colonParts text)).filter fun groups => groups.length = 8
  | some (head, tail) => do
    let head ← (colonParts head).mapM readGroup
    let tail ← readGroups (colonParts tail)
    if head.length + tail.length ≤ 7 then
      some (head ++ List.replicate (8 - head.length - tail.length) 0 ++ tail) else none

/-- The groups of an IPv6 address in brackets, which may name a scope. -/
def hostGroups (host : Name) : Option (List (Fin 65536)) :=
  if host.head? = some '[' ∧ host.getLast? = some ']' then
    let (ip, scope) := host.tail.dropLast.span (· != '%')
    if scope = [] ∨ (readNumber (2 ^ 32) scope.tail).isSome then readIpv6Addr ip else none
  else none

/-- An IPv6 address is numbered behind every IPv4 address. -/
def readHost (host : Name) : Option ℕ :=
  match hostGroups host with
  | some groups => some (2 ^ 32 + FixedWidth.value 65536 (groups.map Fin.val))
  | none => (readIpv4Addr host).map (FixedWidth.value 256)

def parseSocketAddr (address : String) : Except String SocketAddr :=
  match splitLast address.toList with
  | none => .error "invalid socket address syntax"
  | some (host, port) =>
    match readHost host, readNumber 65536 port with
    | some ip, some port => .ok ⟨ip, port⟩
    | _, _ => .error "invalid socket address syntax"

section Readers

variable {a b : Name} {n : ℕ} {ds : List ℕ}

theorem readNumber_eq {bound : ℕ} (h : readNumber bound a = some n) : (∀ c ∈ a, c.isDigit = true) ∧ n = decimal a := by
  grind [readNumber]

theorem readOctet_eq (text : Name) (n : ℕ) : readOctet text = some n ↔ n < 256 ∧ text = (toString n).toList := by
  constructor
  · intro h
    obtain ⟨hzero, hne, hdigits, hlt, rfl⟩ : (text.head? = some '0' → text = ['0']) ∧ text ≠ [] ∧
      (∀ c ∈ text, c.isDigit = true) ∧
        decimal text < 256 ∧ decimal text = n := by grind [readOctet, readNumber]
    exact ⟨hlt, ((toString_decimal hne hdigits).mpr hzero).symm⟩
  · rintro ⟨hlt, rfl⟩
    have hdigits : ∀ c ∈ (toString n).toList, c.isDigit = true := fun _ => isDigit_toString
    have hne : (toString n).toList ≠ [] := by
      rw [Nat.toString_eq_ofList_toDigits, String.toList_ofList]
      exact Nat.toDigits_ne_nil
    have hzero := (toString_decimal hne hdigits).mp (by rw [decimal_toString])
    rw [readOctet, if_pos hzero, readNumber, decimal_toString, if_pos ⟨hne, List.all_eq_true.mpr hdigits, hlt⟩]

theorem readIpv4Addr_eq (h : readIpv4Addr a = some ds) :
    ds.length = 4 ∧ (∀ d ∈ ds, d < 256) ∧ a.splitOn '.' = ds.map fun d => (toString d).toList := by
  have hlen : (a.splitOn '.').length = 4 := by grind [readIpv4Addr]
  rw [readIpv4Addr, if_pos hlen, @FixedWidth.mapM_decode _ _ id _ _ readOctet_eq, List.map_id] at h
  exact ⟨by rw [← hlen, h.2, List.length_map], h⟩

theorem hostGroups_length {groups : List (Fin 65536)} (h : hostGroups a = some groups) : groups.length = 8 := by
  obtain ⟨ip, hip⟩ : ∃ ip, readIpv6Addr ip = some groups := by grind [hostGroups]
  unfold readIpv6Addr at hip
  split at hip
  · simpa using (Option.filter_eq_some_iff.mp hip).2
  · simp only [Option.bind_eq_bind, Option.bind_eq_some_iff] at hip
    obtain ⟨head, -, tail, -, hgroups⟩ := hip
    split_ifs at hgroups with hlen
    cases hgroups
    simp only [List.length_append, List.length_replicate]
    omega

theorem readHost_cases (h : readHost a = some n) :
    (∃ groups, hostGroups a = some groups ∧ n = 2 ^ 32 + FixedWidth.value 65536 (groups.map Fin.val)) ∨
      n < 2 ^ 32 ∧ a = ['.'].intercalate ((FixedWidth.digits 256 4 n).map fun d => (toString d).toList) := by
  unfold readHost at h
  split at h
  next groups hgroups => exact Or.inl ⟨groups, hgroups, (Option.some.inj h).symm⟩
  next =>
    obtain ⟨ds, hds, rfl⟩ := Option.map_eq_some_iff.mp h
    obtain ⟨hlen, hlt, htext⟩ := readIpv4Addr_eq hds
    refine Or.inr ⟨by simpa [hlen] using FixedWidth.value_lt (by decide) hlt, ?_⟩
    rw [← hlen, FixedWidth.digits_value (by decide) hlt, ← htext, List.intercalate_splitOn]

/-- Two hosts are one address exactly when they are one text or spell the same groups. -/
theorem readHost_eq_iff {m : ℕ} (ha : readHost a = some n) (hb : readHost b = some m) :
    n = m ↔ a = b ∨ ∃ groups, hostGroups a = some groups ∧ hostGroups b = some groups := by
  constructor
  · rintro rfl
    rcases readHost_cases ha with ⟨groups, hga, hn⟩ | ⟨hn, htext⟩ <;> rcases readHost_cases hb with ⟨groups', hgb,
      hn'⟩ | ⟨hn', htext'⟩
    · have hlt : ∀ groups : List (Fin 65536), ∀ d ∈ groups.map Fin.val, d < 65536 := by grind
      have hdigits := congrArg (FixedWidth.digits 65536 8) (Nat.add_left_cancel (hn.symm.trans hn'))
      rw [← hostGroups_length hga, ← List.length_map, FixedWidth.digits_value (by decide) (hlt _), List.length_map,
        hostGroups_length hga, ← hostGroups_length hgb, ← List.length_map, FixedWidth.digits_value (by decide)
        (hlt _)] at hdigits
      cases List.map_injective_iff.mpr Fin.val_injective hdigits
      exact Or.inr ⟨groups, hga, hgb⟩
    · omega
    · omega
    · exact Or.inl (htext.trans htext'.symm)
  · rintro (rfl | ⟨groups, hga, hgb⟩)
    · exact Option.some.inj (ha.symm.trans hb)
    · simp only [readHost, hga, hgb] at ha hb
      exact Option.some.inj (ha.symm.trans hb)

end Readers

/-- Two texts differ in zeros in front of their ports, and in how their hosts spell the eight groups of an IPv6
address. -/
def Respelt (a b : Name) : Prop :=
  a ≠ b ∧ ∃ host port host' port', splitLast a = some (host, port) ∧ splitLast b = some (host', port') ∧
    significant port = significant port' ∧
    (host = host' ∨ ∃ groups, hostGroups host = some groups ∧ hostGroups host' = some groups)

theorem parseSocketAddr_parts {a : String} {x : SocketAddr} (h : parseSocketAddr a = .ok x) :
    ∃ host port, splitLast a.toList = some (host, port) ∧ readHost host = some x.ip ∧
    readNumber 65536 port = some x.port := by
  grind [parseSocketAddr]

/-- **One address, two texts.** -/
theorem parseSocketAddr_eq_iff {a b : String} {x y : SocketAddr} (ha : parseSocketAddr a = .ok x)
    (hb : parseSocketAddr b = .ok y) (hne : a ≠ b) : x = y ↔ Respelt a.toList b.toList := by
  obtain ⟨host, port, hsplit, hhost, hport⟩ := parseSocketAddr_parts ha
  obtain ⟨host', port', hsplit', hhost', hport'⟩ := parseSocketAddr_parts hb
  obtain ⟨hdigits, hx⟩ := readNumber_eq hport
  obtain ⟨hdigits', hy⟩ := readNumber_eq hport'
  have hxy : x = y ↔ x.ip = y.ip ∧ x.port = y.port := by cases x; cases y; simp
  rw [hxy, hx, hy, readHost_eq_iff hhost hhost', decimal_eq_iff hdigits hdigits', Respelt]
  simp [hsplit, hsplit', hne, String.toList_inj, and_comm]

namespace ClusterDocument

section Addresses

variable {text : TextRules} {n : NodeEntry} {seen seen' : List String}

theorem checkAddresses_ok {addresses : List String} (h : checkAddresses text n seen addresses = .ok seen') :
    (∀ a ∈ addresses, ∃ x, text.parseSocketAddr a = .ok x) ∧ seen ⊆ seen' ∧
      (n.state = .active → ∀ a ∈ addresses, a ∈ seen' ∧ a ∉ seen) := by
  fun_induction checkAddresses text n seen addresses with grind

theorem checkNodeAddresses_ok {nodes : List NodeEntry} (h : checkNodeAddresses text seen nodes = .ok ()) :
    (∀ n ∈ nodes, ∀ a ∈ n.addresses, ∃ x, text.parseSocketAddr a = .ok x) ∧
      (∀ n ∈ nodes, n.state = .active → ∀ a ∈ n.addresses, a ∉ seen) ∧
      nodes.Pairwise fun n m => n.state = .active → m.state = .active → ∀ a ∈ n.addresses, a ∉ m.addresses := by
  fun_induction checkNodeAddresses text seen nodes with
  | case1 => simp
  | case2 => cases h
  | case3 => cases h
  | case4 seen n rest _ seen' hn ih =>
    obtain ⟨hparse, hseen, hpair⟩ := ih h
    obtain ⟨hfirst, hmore, hnew⟩ := checkAddresses_ok hn
    refine ⟨List.forall_mem_cons.mpr ⟨hfirst, hparse⟩, List.forall_mem_cons.mpr ⟨fun hactive a ha =>
      (hnew hactive a ha).2, ?_⟩, ?_⟩
    · exact fun m hm hactive a ha hin => hseen m hm hactive a ha (hmore hin)
    · exact hpair.cons fun m hm hactive hactive' a ha hin => hseen m hm hactive' a hin (hnew hactive a ha).1

end Addresses

/-- No socket address is listed for two different active nodes. -/
def Apart (d : ClusterDocument) : Prop :=
  ∀ n ∈ d.activeNodes, ∀ m ∈ d.activeNodes, n.id ≠ m.id → ∀ a ∈ n.addresses, ∀ b ∈ m.addresses, ∀ x,
    parseSocketAddr a = .ok x → parseSocketAddr b ≠ .ok x

/-- **The active nodes of a valid document share no address exactly when none lists an address that another lists in a
different spelling.** -/
theorem apart_iff (text : TextRules) (d : ClusterDocument)
    (hvalid : d.validate { text with parseSocketAddr := parseSocketAddr } = .ok ()) :
    d.Apart ↔ ∀ n ∈ d.activeNodes, ∀ m ∈ d.activeNodes, n.id ≠ m.id → ∀ a ∈ n.addresses, ∀ b ∈ m.addresses,
      ¬ Respelt a.toList b.toList := by
  obtain ⟨hparse, -, hpair⟩ := checkNodeAddresses_ok (validate_checks hvalid).2
  refine forall₄_congr fun n hn m hm => forall_congr' fun hid => forall₄_congr fun a ha b hb => ?_
  obtain ⟨hn, hactive⟩ := List.mem_filter.mp hn
  obtain ⟨hm, hactive'⟩ := List.mem_filter.mp hm
  have hne : a ≠ b := by
    rintro rfl
    have : Std.Symm fun n m : NodeEntry => n.state = .active → m.state = .active → ∀ a ∈ n.addresses, a ∉ m.addresses :=
      ⟨fun _ _ h hm hn a ha hin => h hn hm a hin ha⟩
    exact hpair.forall hn hm (fun heq => hid (congrArg _ heq)) (by simpa using hactive)
      (by simpa using hactive') a ha hb
  obtain ⟨x, hx⟩ := hparse n hn a ha
  obtain ⟨y, hy⟩ := hparse m hm b hb
  rw [← parseSocketAddr_eq_iff hx hy hne]
  grind

/-- Two active nodes, the first of which is at port 9000 of the machine itself. -/
def twoNodes (address : String) : ClusterDocument :=
  { pairDocument with nodes := [⟨1, ["127.0.0.1:9000"], none, .active⟩, ⟨2, [address], none, .active⟩] }

theorem twoNodes_apart_iff :
    (twoNodes "[::1]:9000").validate { plainText with parseSocketAddr := parseSocketAddr } = .ok () ∧
    ((twoNodes "[::1]:9000").Apart ↔
      ∀ n ∈ (twoNodes "[::1]:9000").activeNodes, ∀ m ∈ (twoNodes "[::1]:9000").activeNodes, n.id ≠ m.id →
      ∀ a ∈ n.addresses, ∀ b ∈ m.addresses, ¬ Respelt a.toList b.toList) := by
  have hvalid : (twoNodes "[::1]:9000").validate { plainText with parseSocketAddr := parseSocketAddr } = .ok () := by
    decide +kernel
  exact ⟨hvalid, apart_iff plainText _ hvalid⟩

/-- A zero in front of the port makes another text of the address. -/
theorem shared_address :
    (twoNodes "127.0.0.1:09000").validate { plainText with parseSocketAddr := parseSocketAddr } = .ok () ∧
      ¬ (twoNodes "127.0.0.1:09000").Apart := by
  refine ⟨by decide +kernel, fun h => ?_⟩
  exact h _ List.mem_cons_self _ (List.mem_cons_of_mem _ List.mem_cons_self)
    (by decide) _ List.mem_cons_self _ List.mem_cons_self ⟨2130706433, 9000⟩ (by decide +kernel) (by decide +kernel)

end ClusterDocument

end Djbod
