import Mathlib
import ThreatModel.Proofs.Document.Model
import ThreatModel.Proofs.FirstWrite
import ThreatModel.Proofs.Json.Numbers
import ThreatModel.Store

/-!
# `Proofs.Document.Slots` — the extension slots of a stored model

Of a model that is stored and loaded again only the numbers can change: those in the extension slots, and the lines of
provenances. A line that is loaded at all is the one that was stored. The slots of a library were read from a text
themselves, so without floating point numbers they come back as they are, and so does a model that has its slots from
libraries only.

## Contents

* `Custom.numbers`, `Custom.back_eq` — the numbers in a slot, and what becomes of it.
* `Registry.InRange`, `Store.inRange_of_loadLibrary`, `Registry.Floatless` — the slots of a library.
* `Graph.Stays`, `Graph.eq_of_back` — a model that is loaded as it was stored.
-/

namespace ThreatModel

open FileTree (bind_ok)
open Json

/-! ## Slots -/

/-- The numbers in an extension slot. -/
def Custom.numbers (slot : Custom) : List Number := memberNumbers slot.members

theorem Custom.mem_numbers_ofMembers {members : List (String × Json)} {n : Number}
    (h : n ∈ (Custom.ofMembers members).numbers) : n ∈ memberNumbers members :=
  memberNumbers_canonical members n h

/-- An extension slot whose numbers stay comes back as it was, if it comes back. -/
theorem Custom.back_eq {slot other : Custom} {levels : Nat} (hstays : ∀ n ∈ slot.numbers, n.Stays)
    (h : Codec.custom.back levels slot = some other) : other = slot := by
  obtain ⟨v, hv, h⟩ := Option.bind_eq_some_iff.mp h
  have hnumbers : ∀ n ∈ (Json.object slot.members).numbers, n.Stays := hstays
  obtain rfl := reread_eq hnumbers hv
  rw [← Option.some.inj h, Custom.ofMembers_members]

/-- A count that comes back is the same. -/
theorem count_back_eq {levels n m : Nat} (h : Codec.count.back levels n = some m) : m = n := by
  obtain ⟨v, hv, h⟩ := Option.bind_eq_some_iff.mp h
  obtain ⟨read, hread, rfl⟩ := Option.map_eq_some_iff.mp hv
  cases read with
  | float bits => cases h
  | whole value =>
    obtain rfl := whole_of_reread hread
    have hnegative : ¬(n : Int) < 0 := by omega
    simp only [Codec.count, if_neg hnegative, Int.toNat_natCast] at h
    exact (Option.some.inj h).symm

/-! ## The slots of a library -/

/-- The whole numbers in the slot of an entity are in range. -/
def Entity.InRange (e : Entity) : Prop := ∀ n ∈ e.custom.numbers, n.InRange

theorem inRange_of_custom_decode (v : Json) (slot : Custom) (hv : v.InRange)
    (h : Codec.custom.decode .stored v = .ok slot) : ∀ n ∈ slot.numbers, n.InRange := by
  cases v with
  | object members =>
    obtain rfl := Except.ok.inj h
    exact fun n hn => hv n (Custom.mem_numbers_ofMembers hn)
  | null | bool b | number n | string s | array items => cases h

theorem keeps_entity (title : String) : (Entity.shape title).Keeps Entity.InRange where
  blank := List.forall_mem_nil _
  fields := by
    simp only [Entity.shape, Entity.headFields, Entity.customField, List.cons_append, List.nil_append,
      List.forall_mem_cons, List.not_mem_nil]
    exact ⟨keeps_field fun _ _ _ _ _ h => h, keeps_field fun _ _ _ _ _ h => h, keeps_field fun _ _ _ _ _ h => h,
      keeps_field fun _ _ _ _ _ h => h, keeps_field fun v slot hv h _ _ => inRange_of_custom_decode v slot hv h,
      fun _ h => h.elim⟩

theorem keeps_component : Component.shape.Keeps fun c => c.toEntity.InRange where
  blank := List.forall_mem_nil _
  fields := by
    simp only [Component.shape, Entity.headFields, Entity.customField, List.cons_append, List.nil_append,
      List.forall_mem_cons, List.not_mem_nil]
    exact ⟨keeps_field fun _ _ _ _ _ h => h, keeps_field fun _ _ _ _ _ h => h, keeps_field fun _ _ _ _ _ h => h,
      keeps_field fun _ _ _ _ _ h => h, keeps_field fun _ _ _ _ _ h => h,
      keeps_field fun v slot hv h _ _ => inRange_of_custom_decode v slot hv h, fun _ h => h.elim⟩

/-- The whole numbers in the slots of a registry are in range. -/
def Registry.InRange (r : Registry) : Prop := ∀ kind name record, r.record? kind name = some record →
  record.toEntity.InRange

namespace Store

variable {s : Store} {tree : FileTree}

theorem readDocument_ok {α : Type} {document : Document} {read : List Char → Except Json.Fault α} {value : α}
    (h : s.readDocument tree document read = .ok value) : ∃ text, read text = .ok value := by
  unfold readDocument at h
  split at h
  · cases h
  · cases h
  · next text htext =>
    split at h
    · next found hfound =>
      obtain rfl := Except.ok.inj h
      exact ⟨_, hfound⟩
    · cases h

/-- **The slots of a library** were read from a text, so their numbers are in range. -/
theorem inRange_of_loadLibrary {registry : Registry} (h : s.loadLibrary tree = .ok registry) : registry.InRange := by
  obtain ⟨⟨⟩, -, h⟩ := bind_ok.mp h
  obtain ⟨controls, hcontrols, h⟩ := bind_ok.mp h
  obtain ⟨threats, hthreats, h⟩ := bind_ok.mp h
  obtain ⟨components, hcomponents, h⟩ := bind_ok.mp h
  obtain rfl := Except.ok.inj h
  obtain ⟨controlsText, hcontrols⟩ := readDocument_ok hcontrols
  obtain ⟨threatsText, hthreats⟩ := readDocument_ok hthreats
  obtain ⟨componentsText, hcomponents⟩ := readDocument_ok hcomponents
  have hentities : ∀ {title : String} {text : List Char} {m : NameMap Entity},
      Document.readMap (Entity.shape title) text = .ok m → ∀ entry ∈ m.entries, entry.2.InRange :=
    fun hm => Reader.delivers_document (Reader.delivers_mapOf (Reader.delivers_record (keeps_entity _)) _) hm
  have hplaced : ∀ entry ∈ components.entries, entry.2.toEntity.InRange :=
    Reader.delivers_document (Reader.delivers_mapOf (Reader.delivers_record keeps_component) _) hcomponents
  intro kind name record hrecord
  cases kind with
  | component => exact hplaced _ (NameMap.get?_eq_some_iff.mp hrecord)
  | control =>
    obtain ⟨e, he, rfl⟩ := Option.map_eq_some_iff.mp hrecord
    exact hentities hcontrols _ (NameMap.get?_eq_some_iff.mp he)
  | threat =>
    obtain ⟨e, he, rfl⟩ := Option.map_eq_some_iff.mp hrecord
    exact hentities hthreats _ (NameMap.get?_eq_some_iff.mp he)

end Store

/-- No slot of a registry holds a floating point number. -/
def Registry.Floatless (r : Registry) : Prop := ∀ kind name record, r.record? kind name = some record →
  ∀ bits, Number.float bits ∉ record.custom.numbers

/-- The numbers in such slots stay. -/
theorem Registry.InRange.stays {r : Registry} (h : r.InRange) (hfloatless : r.Floatless) {kind : EntityKind}
    {name : String} {record : Component} (hrecord : r.record? kind name = some record) :
    ∀ n ∈ record.custom.numbers, n.Stays := by
  intro n hn
  refine (h kind name record hrecord n hn).stays ?_
  rintro bits rfl
  exact hfloatless kind name record hrecord bits hn

/-! ## Models that stay -/

/-- A model whose slots hold only numbers that stay. -/
structure Graph.Stays (g : Graph) : Prop where
  records : ∀ kind name record, g.registry.record? kind name = some record → ∀ n ∈ record.custom.numbers, n.Stays
  annexes : ∀ a ∈ g.relations.annexes, ∀ n ∈ a.custom.numbers, n.Stays

theorem Annex.back_eq {a other : Annex} (hstays : ∀ n ∈ a.custom.numbers, n.Stays) {levels : Nat}
    (h : a.back (levels + 1) = some other) : other = a := by
  obtain ⟨custom, hcustom, h⟩ := Option.bind_eq_some_iff.mp h
  obtain ⟨source, hsource, h⟩ := Option.bind_eq_some_iff.mp h
  obtain rfl := Custom.back_eq hstays hcustom
  rw [back_source] at hsource
  obtain ⟨line, hline, rfl⟩ := Option.map_eq_some_iff.mp hsource
  rw [← Option.some.inj h, count_back_eq hline]

/-- Records whose last parts come back as they were come back as they were. -/
theorem mapM_annex_eq {σ : Type} {get : σ → Annex} {put : σ → Annex → σ} (hput : ∀ r, put r (get r) = r)
    {levels : Nat} {records others : List σ} (hstays : ∀ r ∈ records, ∀ n ∈ (get r).custom.numbers, n.Stays)
    (h : records.mapM (fun r => ((get r).back (levels + 1)).map (put r)) = some others) : others = records := by
  induction records generalizing others with
  | nil => exact (Option.some.inj h).symm
  | cons r rest ih =>
    obtain ⟨hr, hrest⟩ := List.forall_mem_cons.mp hstays
    rw [List.mapM_cons] at h
    obtain ⟨first, hfirst, h⟩ := Option.bind_eq_some_iff.mp h
    obtain ⟨more, hmore, h⟩ := Option.bind_eq_some_iff.mp h
    obtain ⟨annex, hannex, rfl⟩ := Option.map_eq_some_iff.mp hfirst
    rw [← Option.some.inj h, ih hrest hmore, Annex.back_eq hr hannex, hput]

theorem Relations.back_eq {rs others : Relations} (hstays : ∀ a ∈ rs.annexes, ∀ n ∈ a.custom.numbers, n.Stays)
    (h : rs.back 124 = some others) : others = rs := by
  simp only [annexes, List.forall_mem_append, List.forall_mem_map] at hstays
  obtain ⟨⟨⟨⟨⟨⟨hmitigations, hexposures⟩, htransfers⟩, hacceptances⟩, hconnections⟩, hreviews⟩, htests⟩ := hstays
  obtain ⟨mitigations, h1, h⟩ := Option.bind_eq_some_iff.mp h
  obtain ⟨exposures, h2, h⟩ := Option.bind_eq_some_iff.mp h
  obtain ⟨transfers, h3, h⟩ := Option.bind_eq_some_iff.mp h
  obtain ⟨acceptances, h4, h⟩ := Option.bind_eq_some_iff.mp h
  obtain ⟨connections, h5, h⟩ := Option.bind_eq_some_iff.mp h
  obtain ⟨reviews, h6, h⟩ := Option.bind_eq_some_iff.mp h
  obtain ⟨tests, h7, h⟩ := Option.bind_eq_some_iff.mp h
  rw [← Option.some.inj h, mapM_annex_eq (fun _ => rfl) hmitigations h1, mapM_annex_eq (fun _ => rfl) hexposures h2,
    mapM_annex_eq (fun _ => rfl) htransfers h3, mapM_annex_eq (fun _ => rfl) hacceptances h4,
    mapM_annex_eq (fun _ => rfl) hconnections h5, mapM_annex_eq (fun _ => rfl) hreviews h6,
    mapM_annex_eq (fun _ => rfl) htests h7]

/-- **A model whose numbers stay is loaded as it was stored.** -/
theorem Graph.eq_of_back {g loaded : Graph} (hstays : g.Stays) (h : g.back = some loaded) :
    loaded = ofParts g.runId g.registry g.relations := by
  obtain ⟨controls, hcontrols, h⟩ := Option.bind_eq_some_iff.mp h
  obtain ⟨threats, hthreats, h⟩ := Option.bind_eq_some_iff.mp h
  obtain ⟨components, hcomponents, h⟩ := Option.bind_eq_some_iff.mp h
  obtain ⟨relations, hrelations, h⟩ := Option.bind_eq_some_iff.mp h
  have hentity : ∀ {title : String} {e other : Entity}, (∀ n ∈ e.custom.numbers, n.Stays) →
      (Entity.shape title).codec.back 126 e = some other → other = e := by
    intro title e other he hback
    rw [back_entity title 125] at hback
    obtain ⟨custom, hcustom, rfl⟩ := Option.map_eq_some_iff.mp hback
    rw [Custom.back_eq he hcustom]
  have hcomponent : ∀ {c other : Component}, (∀ n ∈ c.custom.numbers, n.Stays) →
      Component.shape.codec.back 126 c = some other → other = c := by
    intro c other hc hback
    rw [back_component 123] at hback
    obtain ⟨custom, hcustom, rfl⟩ := Option.map_eq_some_iff.mp hback
    rw [Custom.back_eq hc hcustom]
  have hfound : ∀ (kind : EntityKind) {m : NameMap Entity},
      (∀ name, g.registry.record? kind name = (m.get? name).map Entity.unplaced) →
        ∀ entry ∈ m.entries, ∀ n ∈ entry.2.custom.numbers, n.Stays := by
    intro kind m hm entry hentry
    refine hstays.records kind entry.1 entry.2.unplaced ?_
    rw [hm, NameMap.get?_eq_some_iff.mpr hentry, Option.map_some]
  obtain rfl : controls = g.registry.controls :=
    NameMap.eq_of_traverse hcontrols fun entry hentry _ => hentity (hfound .control (fun _ => rfl) entry hentry)
  obtain rfl : threats = g.registry.threats :=
    NameMap.eq_of_traverse hthreats fun entry hentry _ => hentity (hfound .threat (fun _ => rfl) entry hentry)
  obtain rfl : components = g.registry.components :=
    NameMap.eq_of_traverse hcomponents fun entry hentry _ =>
      hcomponent (hstays.records .component entry.1 entry.2 (NameMap.get?_eq_some_iff.mpr hentry))
  rw [← Option.some.inj h, Relations.back_eq hstays.annexes hrelations]
  rfl

end ThreatModel
