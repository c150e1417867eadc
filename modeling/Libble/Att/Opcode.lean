import Mathlib

/-!
# ATT opcodes

The opcodes of the Attribute Protocol, their classification by `get_op_type` and the pairing of
requests with responses by `get_req_opcode`, as `bluez/src/shared/att.c` has them in its two
tables, and what `handle_rsp` makes of a response to the pending request.

## Main definitions

* `Att.getOpType`, `Att.getReqOpcode`: the lookups in the tables.
* `Att.responseOf`: the opcode and data with which `handle_rsp` ends the pending request.
* `Att.statusOf`: the status that `attrib_callback_result` derives from them.

## Main results

* `Att.responseOf_cases`: the request ends with the response itself or with an error.
-/

namespace Libble.Att

/-- The bytes of a PDU. -/
abbrev Pdu := List UInt8

/-- `BT_ATT_OP_ERROR_RSP` -/
abbrev opErrorRsp : UInt8 := 0x01
/-- `BT_ATT_OP_FIND_INFO_REQ` -/
abbrev opFindInfoReq : UInt8 := 0x04
/-- `BT_ATT_OP_FIND_INFO_RSP` -/
abbrev opFindInfoRsp : UInt8 := 0x05
/-- `BT_ATT_OP_READ_BY_TYPE_REQ` -/
abbrev opReadByTypeReq : UInt8 := 0x08
/-- `BT_ATT_OP_READ_BY_TYPE_RSP` -/
abbrev opReadByTypeRsp : UInt8 := 0x09
/-- `BT_ATT_OP_READ_REQ` -/
abbrev opReadReq : UInt8 := 0x0a
/-- `BT_ATT_OP_READ_RSP` -/
abbrev opReadRsp : UInt8 := 0x0b
/-- `BT_ATT_OP_READ_BLOB_REQ` -/
abbrev opReadBlobReq : UInt8 := 0x0c
/-- `BT_ATT_OP_READ_BLOB_RSP` -/
abbrev opReadBlobRsp : UInt8 := 0x0d
/-- `BT_ATT_OP_WRITE_REQ` -/
abbrev opWriteReq : UInt8 := 0x12
/-- `BT_ATT_OP_PREP_WRITE_REQ` -/
abbrev opPrepWriteReq : UInt8 := 0x16
/-- `BT_ATT_OP_PREP_WRITE_RSP` -/
abbrev opPrepWriteRsp : UInt8 := 0x17
/-- `BT_ATT_OP_EXEC_WRITE_REQ` -/
abbrev opExecWriteReq : UInt8 := 0x18
/-- `BT_ATT_OP_EXEC_WRITE_RSP` -/
abbrev opExecWriteRsp : UInt8 := 0x19
/-- `BT_ATT_OP_HANDLE_NFY` -/
abbrev opHandleNfy : UInt8 := 0x1b

/-- `enum att_op_type` -/
inductive OpType
  | req
  | rsp
  | cmd
  | ind
  | nfy
  | conf
  | unknown
  deriving DecidableEq, Repr

/-- `att_opcode_type_table` -/
def attOpcodeTypeTable : List (UInt8 × OpType) :=
  [(0x01, .rsp), (0x02, .req), (0x03, .rsp), (0x04, .req), (0x05, .rsp), (0x06, .req),
    (0x07, .rsp), (0x08, .req), (0x09, .rsp), (0x0a, .req), (0x0b, .rsp), (0x0c, .req),
    (0x0d, .rsp), (0x0e, .req), (0x0f, .rsp), (0x10, .req), (0x11, .rsp), (0x12, .req),
    (0x13, .rsp), (0x52, .cmd), (0xd2, .cmd), (0x16, .req), (0x17, .rsp), (0x18, .req),
    (0x19, .rsp), (0x1b, .nfy), (0x23, .nfy), (0x1d, .ind), (0x1e, .conf)]

/-- `get_op_type`: an opcode outside the table is a command if it has the bit `ATT_OP_CMD_MASK`. -/
def getOpType (opcode : UInt8) : OpType :=
  match attOpcodeTypeTable.lookup opcode with
  | some type => type
  | none => if opcode &&& 0x40 ≠ 0 then .cmd else .unknown

/-- `att_req_rsp_mapping_table`, from responses to requests. -/
def attReqRspMappingTable : List (UInt8 × UInt8) :=
  [(0x03, 0x02), (0x05, 0x04), (0x07, 0x06), (0x09, 0x08), (0x0b, 0x0a), (0x0d, 0x0c),
    (0x0f, 0x0e), (0x11, 0x10), (0x13, 0x12), (0x17, 0x16), (0x19, 0x18)]

/-- `get_req_opcode`: the request that a response answers, or 0. -/
def getReqOpcode (rspOpcode : UInt8) : UInt8 := (attReqRspMappingTable.lookup rspOpcode).getD 0

theorem mem_of_getReqOpcode {rspOpcode opcode : UInt8} (h : getReqOpcode rspOpcode = opcode)
    (hne : opcode ≠ 0) : (rspOpcode, opcode) ∈ attReqRspMappingTable := by
  rw [getReqOpcode] at h
  cases hlookup : attReqRspMappingTable.lookup rspOpcode with
  | none =>
    rw [hlookup] at h
    exact absurd h.symm hne
  | some found =>
    rw [hlookup, Option.getD_some] at h
    obtain ⟨_, _, htable, -⟩ := List.lookup_eq_some_iff.mp hlookup
    rw [htable, ← h]
    exact List.mem_append_right _ List.mem_cons_self

/-- The opcode that a response PDU names as the one of the request it answers: `handle_error_rsp`
takes it from an Error Response of the right size, `get_req_opcode` from the opcode of another
response; 0 stands for none. -/
def answeredOpcode (opcode : UInt8) (pdu : Pdu) : UInt8 :=
  if opcode = opErrorRsp then
    match pdu with
    | [reqOpcode, _, _, _] => reqOpcode
    | _ => 0
  else getReqOpcode opcode

/-- What `handle_rsp` gives to the callback of the pending request with opcode `reqOpcode` when the
response `opcode`, `pdu` arrives: the response, or an Error Response without data if the response
is malformed or answers another request. -/
def responseOf (reqOpcode opcode : UInt8) (pdu : Pdu) : UInt8 × Pdu :=
  if answeredOpcode opcode pdu = reqOpcode then (opcode, pdu) else (opErrorRsp, [])

/-- The status that `attrib_callback_result` computes: the error code of an Error Response, or
`BT_ATT_ERROR_UNLIKELY` if it is too short to have one. -/
def statusOf (opcode : UInt8) (pdu : Pdu) : UInt8 :=
  if opcode = opErrorRsp then if pdu.length < 4 then 0x0e else pdu.getD 3 0 else 0

theorem responseOf_cases (reqOpcode opcode : UInt8) (pdu : Pdu) :
    (answeredOpcode opcode pdu = reqOpcode ∧ responseOf reqOpcode opcode pdu = (opcode, pdu)) ∨
      responseOf reqOpcode opcode pdu = (opErrorRsp, []) := by
  by_cases h : answeredOpcode opcode pdu = reqOpcode
  · exact .inl ⟨h, if_pos h⟩
  · exact .inr (if_neg h)

@[simp] theorem statusOf_failure : statusOf opErrorRsp [] = 0x0e := rfl

end Libble.Att
