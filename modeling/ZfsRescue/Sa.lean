import ZfsRescue.Objectset
import ZfsRescue.Zap.Blocks

open bytes dict
open zfs_rescue.zio zfs_rescue.dnode zfs_rescue.objectset zfs_rescue.zap
open zfs_rescue.extractor.zap_leaf

namespace zfs_rescue.sa

/-- The numbers of the two tables, the registered attributes by their number,
    and the layouts by theirs in decimal. -/
structure SystemAttr where
  sa_layout_id : Nat
  sa_registry_id : Nat
  reg : Dict Nat SaField
  lay : Dict String (List SaField)
  deriving DecidableEq, Repr

/-- `zap[item]` of what `zap_factory` gave. -/
def zap_getitem (zap : Option Entries) (item : String) : Py (Option ZapValue) :=
  match zap with
  | none => .error .TypeError
  | some entries => .ok (entries.lookup item)

/-- A value that is used as an object number. -/
def object_id : Option ZapValue → Py Nat
  | some (.int v) => .ok v
  | _ => .error .TypeError

/-- `zap_factory` on what an object set gave. -/
def zap_of_dnode (frames : Nat) (vdev : GenericDevice) : Option DNode → Py (Option Entries)
  | none => .error .AttributeError
  | some dnode => zap_factory frames vdev dnode

/-- `zap.keys()`, with the values that the loops look up under them. -/
def zap_entries : Option Entries → Py Entries
  | none => .error .AttributeError
  | some entries => .ok entries

/-- The number and the record of a registered attribute. -/
def registered (lower : String → String) (e : String × ZapValue) : Py (Nat × SaField) :=
  match e.2 with
  | .data _ => .error .TypeError
  | .int v => .ok (v &&& 0xffff, { len := v >>> 24 &&& 0xffff, name := lower e.1 })

/-- One round of the loop over the registry. -/
def set_registered (lower : String → String) (reg : Dict Nat SaField) (e : String × ZapValue) : Py (Dict Nat SaField) := do
  let r ← registered lower e
  .ok (set reg r.1 r.2)

/-- `self._reg[idx]`. -/
def reg_getitem (reg : Dict Nat SaField) (idx : Nat) : Py SaField :=
  match reg.lookup idx with
  | none => .error .KeyError
  | some field => .ok field

/-- The records of a layout. A number has no length. -/
def layout_fields (reg : Dict Nat SaField) : ZapValue → Py (List SaField)
  | .int _ => .error .TypeError
  | .data b => (List.range (b.length / 2)).mapM fun i => do
    let idx ← unpackBE 2 (slice b (i * 2) 2)
    reg_getitem reg idx

/-- A layout with its records, under its number in decimal. -/
def layout_records (reg : Dict Nat SaField) (e : String × ZapValue) : Py (String × List SaField) := do
  let fields ← layout_fields reg e.2
  .ok (e.1, fields)

/-- One round of the loop over the layouts. -/
def set_layout (reg : Dict Nat SaField) (lay : Dict String (List SaField)) (e : String × ZapValue) :
    Py (Dict String (List SaField)) := do
  let r ← layout_records reg e
  .ok (set lay r.1 r.2)

/-- The constructor, in a data set with the given caches. `lower` is `str.lower`
    of the interpreter. -/
def SystemAttr.init (frames : Nat) (lower : String → String) (vdev : GenericDevice) (dataset : ObjectSet)
    (caches : Caches) (idx : Nat) : Py SystemAttr := do
  let found := dataset.get_dnode none caches idx
  let sa_attrs_dnode ← found.1
  let sa_attrs_zap ← zap_of_dnode frames vdev sa_attrs_dnode
  let sa_layout_id ← zap_getitem sa_attrs_zap "LAYOUTS"
  let sa_registry_id ← zap_getitem sa_attrs_zap "REGISTRY"
  let registry_id ← object_id sa_registry_id
  let found := dataset.get_dnode none found.2 registry_id
  let registry ← found.1
  let layout_id ← object_id sa_layout_id
  let found := dataset.get_dnode none found.2 layout_id
  let layout ← found.1
  let r_zap ← zap_of_dnode frames vdev registry
  let l_zap ← zap_of_dnode frames vdev layout
  let r_entries ← zap_entries r_zap
  let reg ← r_entries.foldlM (set_registered lower) []
  let l_entries ← zap_entries l_zap
  let lay ← l_entries.foldlM (set_layout reg) []
  .ok { sa_layout_id := layout_id, sa_registry_id := registry_id, reg := reg, lay := lay }

end zfs_rescue.sa
