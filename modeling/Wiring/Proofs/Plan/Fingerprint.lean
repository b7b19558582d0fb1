import Wiring.Plan.Fingerprint
import Wiring.Proofs.Plan.RoundTrip
/-!
# Fingerprints tell plans apart

The text from which a fingerprint is computed has one line for each component, and a component can
be read back from its line. So two plans with different components are hashed from different bytes
(`Plan.fingerprintInput_inj`), and the same fingerprint for both would be a collision
(`Sha256.Collide`): the digits of a digest determine the digest (`Sha256.hex_inj`).
-/

namespace Wiring

/-! ## The digits of a digest -/

namespace Sha256

/-- Parts of one length are told apart without anything between them. -/
theorem flatMap_inj {α β : Type} {f : α → List β} {k : Nat} (hk : 0 < k)
    (hlen : ∀ a, (f a).length = k) (hf : ∀ a b, f a = f b → a = b) {l m : List α}
    (h : l.flatMap f = m.flatMap f) : l = m := by
  have hne (a : α) (l : List α) : (f a ++ l.flatMap f).length ≠ 0 := by
    rw [List.length_append, hlen]
    omega
  induction l generalizing m with
  | nil =>
    cases m with
    | nil => rfl
    | cons b m => exact absurd (congrArg List.length h).symm (hne b m)
  | cons a l ih =>
    cases m with
    | nil => exact absurd (congrArg List.length h) (hne a l)
    | cons b m =>
      obtain ⟨hab, hlm⟩ := List.append_inj h ((hlen a).trans (hlen b).symm)
      rw [hf a b hab, ih hlm]

/-- The hexadecimal digits of a byte. -/
def hexByte (b : UInt8) : List Char :=
  [b.toNat / 16, b.toNat % 16].map fun n =>
    if n < 10 then Char.ofNat (48 + n) else Char.ofNat (87 + n)

theorem hexByte_inj (a b : UInt8) (h : hexByte a = hexByte b) : a = b := by
  have hdigit : ∀ m < 16, ∀ n < 16,
      (if m < 10 then Char.ofNat (48 + m) else Char.ofNat (87 + m)) =
        (if n < 10 then Char.ofNat (48 + n) else Char.ofNat (87 + n)) → m = n := by decide
  have ha := a.toNat_lt
  have hb := b.toNat_lt
  obtain ⟨hhigh, hlow⟩ := List.cons.inj h
  have hdiv := hdigit _ (by omega) _ (by omega) hhigh
  have hmod := hdigit _ (by omega) _ (by omega) (List.cons.inj hlow).1
  exact UInt8.toNat_inj.1 (by omega)

theorem bigEndian_inj {m n : Nat} (hm : m < UInt32.size) (hn : n < UInt32.size)
    (h : bigEndian 4 m = bigEndian 4 n) : m = n := by
  have hbytes (n : Nat) : bigEndian 4 n =
      [(n / 16777216).toUInt8, (n / 65536).toUInt8, (n / 256).toUInt8, (n / 1).toUInt8] := rfl
  rw [hbytes, hbytes] at h
  simp only [List.cons.injEq, ← UInt8.toNat_inj, Nat.toUInt8, UInt8.toNat_ofNat'] at h
  simp only [UInt32.size] at hm hn
  omega

theorem hexWord_inj (u v : UInt32) (h : (hexWord u).toList = (hexWord v).toList) : u = v := by
  rw [hexWord, hexWord, String.toList_ofList, String.toList_ofList] at h
  have hbytes := flatMap_inj (f := hexByte) (k := 2) (by decide) (fun _ => rfl) hexByte_inj h
  exact UInt32.toNat_inj.1 (bigEndian_inj u.toNat_lt v.toNat_lt hbytes)

theorem words_inj {s t : State} (h : s.words = t.words) : s = t := by
  cases s
  cases t
  simpa [State.words] using h

theorem toList_join (l : List String) : (String.join l).toList = l.flatMap String.toList := by
  induction l with
  | nil => rfl
  | cons s l ih => rw [String.join_cons, String.toList_append, ih, List.flatMap_cons]

/-- The digits of a digest determine it. -/
theorem hex_inj {s t : String} (h : hex s = hex t) :
    digest s.toUTF8.toList = digest t.toUTF8.toList := by
  have hwords : (digest s.toUTF8.toList).words = (digest t.toUTF8.toList).words := by
    have hlen (w : UInt32) : (hexWord w).toList.length = 8 := by
      rw [hexWord, String.toList_ofList]
      rfl
    have hdigits := congrArg String.toList h
    rw [hex, hex, toList_join, toList_join, List.flatMap_map, List.flatMap_map] at hdigits
    exact flatMap_inj (by decide) hlen hexWord_inj hdigits
  exact words_inj hwords

theorem toList_loop (bs : ByteArray) (i : Nat) (acc : List UInt8) :
    ByteArray.toList.loop bs i acc = acc.reverse ++ bs.data.toList.drop i := by
  induction h : bs.size - i generalizing i acc with
  | zero =>
    have hi : ¬i < bs.size := by omega
    have hdrop : bs.data.toList.drop i = [] := List.drop_eq_nil_of_le (Nat.not_lt.1 hi)
    rw [ByteArray.toList.loop.eq_def, if_neg hi, hdrop, List.append_nil]
  | succ n ih =>
    have hi : i < bs.size := by omega
    have hget : bs.get! i = bs.data.toList.get ⟨i, hi⟩ := getElem!_pos bs.data i hi
    rw [ByteArray.toList.loop.eq_def, if_pos hi, ih (i + 1) _ (by omega), List.reverse_cons,
      List.append_assoc, List.singleton_append, hget, List.get_eq_getElem,
      ← List.drop_eq_getElem_cons]

/-- The bytes of a text determine it. -/
theorem bytes_inj {s t : String} : s.toUTF8.toList = t.toUTF8.toList ↔ s = t := by
  refine ⟨fun h => ?_, fun h => by rw [h]⟩
  rw [ByteArray.toList, ByteArray.toList, toList_loop, toList_loop] at h
  have hdata : s.toUTF8 = t.toUTF8 := ByteArray.ext (Array.toList_inj.1 h)
  rwa [String.toUTF8_eq_toByteArray, String.toUTF8_eq_toByteArray, String.toByteArray_inj] at hdata

/-- Two messages are different and have the same digest. -/
def Collide (m n : List UInt8) : Prop := m ≠ n ∧ digest m = digest n

end Sha256

/-! ## The lines of components -/

theorem Component.Writable.isJson_canonical {c : Component} (h : c.Writable) :
    c.toValue.canonical.IsJson fun _ => none :=
  (c.isJson_toValue (fun _ => none) h).arrange (b := true)

namespace Plan

variable {p q : Plan}

/-- A component can be read back from its line. -/
theorem line_inj {c d : Component} (hc : c.Writable) (hd : d.Writable)
    (h : Json.compact c.toValue.canonical = Json.compact d.toValue.canonical) : c = d := by
  have hvalue : c.toValue.canonical = d.toValue.canonical :=
    (Json.compact_inj hc.isJson_canonical hd.isJson_canonical).1 h
  have hread (c : Component) (hc : c.Writable) :
      Component.ofValue .json c.toValue.canonical = .ok c := Component.yields_toValue hc true
  exact Except.ok.inj ((hread c hc).symm.trans (hvalue ▸ hread d hd))

theorem toList_fingerprintInput (p : Plan) : p.fingerprintInput.toList =
    p.components.flatMap fun c => (Json.compact c.toValue.canonical).toList ++ ['\n'] := by
  rw [fingerprintInput, Sha256.toList_join, List.flatMap_map]
  simp

/-- **The text that is hashed determines the components.** -/
theorem fingerprintInput_inj (hp : p.Writable) (hq : q.Writable) :
    p.fingerprintInput = q.fingerprintInput ↔ p.components = q.components := by
  refine ⟨fun h => ?_, fun h => by rw [fingerprintInput, fingerprintInput, h]⟩
  have hline (p : Plan) (hp : p.Writable) (c : Component) (hc : c ∈ p.components) :
      '\n' ∉ (Json.compact c.toValue.canonical).toList :=
    Json.newline_not_mem_compact (hp.components c hc).isJson_canonical
  have hlines := congrArg String.toList h
  rw [toList_fingerprintInput, toList_fingerprintInput] at hlines
  exact Json.lines_inj (hline p hp) (hline q hq) (fun c hc d hd hcd =>
    line_inj (hp.components c hc) (hq.components d hd) (String.toList_inj.1 hcd)) hlines

/-- **A plan is read back from its JSON text, and plans with different components have different
fingerprints unless two digests collide**: the hashed bytes are the same exactly for the same
components. -/
theorem json_and_fingerprint_lose_nothing (decimal : String → Option Float) (hp : p.Writable)
    (hq : q.Writable) :
    (∀ text ∈ [Json.pretty p.toValue, Json.compact p.toValue],
      (Json.read decimal text).map (Plan.ofValue .json) = some (.ok p)) ∧
    (p.fingerprintInput.toUTF8.toList = q.fingerprintInput.toUTF8.toList ↔
      p.components = q.components) ∧
    (p.components ≠ q.components → p.fingerprint = q.fingerprint →
      Sha256.Collide p.fingerprintInput.toUTF8.toList q.fingerprintInput.toUTF8.toList) := by
  have hj := isJson_toValue decimal hp
  have hread : Plan.ofValue .json p.toValue = .ok p := yields_toValue hp false
  have hbytes : p.fingerprintInput.toUTF8.toList = q.fingerprintInput.toUTF8.toList ↔
      p.components = q.components := Sha256.bytes_inj.trans (fingerprintInput_inj hp hq)
  refine ⟨?_, hbytes, fun hne hf => ⟨fun h => hne (hbytes.1 h), ?_⟩⟩
  · rw [List.forall_mem_cons, List.forall_mem_singleton, Json.read_pretty hj, Json.read_compact hj,
      Option.map_some, hread]
    exact ⟨rfl, rfl⟩
  · exact Sha256.hex_inj (by simpa [fingerprint] using hf)

/-- A shelf for books, made from a template, under a name with line breaks or without. -/
def shelf (name : String) : Plan where
  components :=
    [{ index := 0, name := "book", origin := .factory "press", type := .named "Book" [],
       dependencies := [.absent ⟨.named "Author" [], ∅, .nullable⟩] },
     { index := 1, name := name,
       origin := .templateInstance 4 (.ofList [("T", .named "Book" [])]),
       type := .named "Shelf" [.named "Book" []], tags := .ofList ["oak", "\"old\""],
       isRoot := true,
       dependencies :=
        [.allOf ⟨.named "Book" [], ∅, .all⟩ [⟨0, true⟩],
         .proxyParameter ⟨.named "Room" [], ∅, .required⟩ 2 none],
       interceptors := [0] }]
  rounds := 2

theorem writable_shelf (name : String) : (shelf name).Writable where
  components := by
    have hplain (n : String) (h : TypeExpr.parse n = .ok (.named n [])) :
        (TypeExpr.named n []).Writable := TypeExpr.writable_of_parse h
    have hbook := hplain "Book" (by decide +kernel)
    have hparse : TypeExpr.parse "Shelf<Book>" = .ok (.named "Shelf" [.named "Book" []]) := by
      decide +kernel
    have hshelf := TypeExpr.writable_of_parse hparse
    have hfits : ∀ n < 5, n < UInt32.size ∧ n < UInt64.size := by decide
    refine List.forall_mem_cons.2 ⟨⟨(hfits 0 (by decide)).2, trivial, hbook, ?_, nofun⟩,
      List.forall_mem_singleton.2 ⟨(hfits 1 (by decide)).2, ⟨(hfits 4 (by decide)).1, ?_⟩, hshelf,
        ?_, List.forall_mem_singleton.2 (hfits 0 (by decide)).2⟩⟩
    · exact List.forall_mem_singleton.2 (hplain "Author" (by decide +kernel))
    · exact List.forall_mem_singleton.2 hbook
    · refine List.forall_mem_cons.2 ⟨⟨hbook, by decide⟩, List.forall_mem_singleton.2 ?_⟩
      exact ⟨hplain "Room" (by decide +kernel), by decide, fun _ => nofun⟩
  rounds := (by decide : 2 < UInt32.size)

/-- Names that differ in a line break make different plans, which are read back and hashed from
different bytes. -/
theorem json_and_fingerprint_lose_nothing_shelf :
    (shelf "top\nshelf").Writable ∧ (shelf "top shelf").Writable ∧
    (Json.read (fun _ => none) (Json.pretty (shelf "top\nshelf").toValue)).map
      (Plan.ofValue .json) = some (.ok (shelf "top\nshelf")) ∧
    (shelf "top\nshelf").fingerprintInput.toUTF8.toList ≠
      (shelf "top shelf").fingerprintInput.toUTF8.toList := by
  have h := writable_shelf "top\nshelf"
  have h' := writable_shelf "top shelf"
  obtain ⟨hread, hbytes, -⟩ := json_and_fingerprint_lose_nothing (fun _ => none) h h'
  exact ⟨h, h', hread _ (by simp), fun e => absurd (hbytes.1 e) (by decide +kernel)⟩

end Plan

end Wiring
