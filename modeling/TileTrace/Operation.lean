/-!
# Operation labels

The labels that a core writes into its operation trace, with the codes under which a line trace shows
them: three characters for an instruction, one or three for a stall or bubble. Labels outside the
tables are no error; they are shown as unrecognized.
-/

namespace TileTrace

/-- The codes of a stall or bubble, of one and of three characters. -/
structure StallCode where
  lo : Char
  mid : String
  deriving DecidableEq

inductive Operation
  /-- A retired instruction, with its code of three characters. -/
  | instruction (code : String)
  | stall (code : StallCode)
  | unrecognized
  deriving DecidableEq

namespace Operation

def stallCodes : List (String × StallCode) := [
  ("stall_depend_dram_load", ⟨'D', "#DL"⟩), ("stall_depend_group_load", ⟨'O', "#GR"⟩),
  ("stall_depend_global_load", ⟨'G', "#GL"⟩), ("stall_depend_local_load", ⟨'L', "#LL"⟩),
  ("stall_depend_idiv", ⟨'H', "#ID"⟩), ("stall_depend_fdiv", ⟨'Q', "#FD"⟩),
  ("stall_depend_imul", ⟨'X', "#IM"⟩), ("stall_amo_aq", ⟨'M', "#AQ"⟩), ("stall_amo_rl", ⟨'K', "#RL"⟩),
  ("stall_bypass", ⟨'Y', "#BP"⟩), ("stall_lr_aq", ⟨'A', "#LR"⟩), ("stall_fence", ⟨'F', "#FE"⟩),
  ("stall_remote_req", ⟨'R', "#RR"⟩), ("stall_remote_credit", ⟨'T', "#RC"⟩),
  ("stall_fdiv_busy", ⟨'V', "#FB"⟩), ("stall_idiv_busy", ⟨'U', "#IB"⟩), ("stall_fcsr", ⟨'S', "#FC"⟩),
  ("stall_remote_ld", ⟨'E', "#LD"⟩), ("stall_remote_flw_wb", ⟨'W', "#FL"⟩),
  ("bubble_branch_miss", ⟨'B', "#BM"⟩), ("bubble_jalr_miss", ⟨'J', "#JM"⟩),
  ("stall_ifetch_wait", ⟨'F', "#IF"⟩), ("bubble_icache_miss", ⟨'I', "#IC"⟩),
  ("icache_miss", ⟨'C', "#IM"⟩)]

def integerCodes : List (String × String) := [
  ("local_ld", "lld"), ("local_st", "lst"), ("remote_ld_dram", "ldr"), ("remote_ld_global", "lgl"),
  ("remote_ld_group", "lgr"), ("remote_st_dram", "sdr"), ("remote_st_global", "sgl"),
  ("remote_st_group", "sgr"), ("local_flw", "flw"), ("local_fsw", "fsw"), ("remote_flw_dram", "fdr"),
  ("remote_flw_global", "fgl"), ("remote_flw_group", "fgr"), ("remote_fsw_dram", "fsd"),
  ("remote_fsw_global", "fsg"), ("remote_fsw_group", "fsr"), ("lr", "lr "), ("lr_aq", "lra"),
  ("amoswap", "ams"), ("amoor", "amo"), ("beq", "beq"), ("bne", "bne"), ("blt", "blt"), ("bge", "bge"),
  ("bltu", "blu"), ("bgeu", "bgu"), ("jal", "jal"), ("jalr", "jar"), ("beq_miss", "eqm"),
  ("bne_miss", "nem"), ("blt_miss", "ltm"), ("bge_miss", "gem"), ("bltu_miss", "lum"),
  ("bgeu_miss", "gum"), ("jalr_miss", "jam"), ("sll", "sll"), ("slli", "sli"), ("srl", "srl"),
  ("srli", "sri"), ("sra", "sra"), ("srai", "sai"), ("add", "add"), ("addi", "adi"), ("sub", "sub"),
  ("lui", "lui"), ("auipc", "apc"), ("xor", "xor"), ("xori", "xri"), ("or", "or "), ("ori", "ori"),
  ("and", "and"), ("andi", "ani"), ("slt", "slt"), ("slti", "sli"), ("sltu", "slu"), ("sltiu", "siu"),
  ("div", "div"), ("divu", "diu"), ("rem", "rem"), ("remu", "reu"), ("mul", "mul"), ("fence", "fen"),
  ("csrrw", "crw"), ("csrrs", "crs"), ("csrrc", "crc"), ("csrrwi", "cwi"), ("csrrsi", "csi"),
  ("csrrci", "cci"), ("unknown", "unk")]

def floatCodes : List (String × String) := [
  ("fadd", "fad"), ("fsub", "fsu"), ("fmul", "fmu"), ("fsgnj", "fgj"), ("fsgnjn", "fjn"),
  ("fsgnjx", "fjx"), ("fmin", "fmi"), ("fmax", "fma"), ("fcvt_s_w", "fcw"), ("fcvt_s_wu", "fcu"),
  ("fmv_w_x", "fwx"), ("fmadd", "fma"), ("fmsub", "fms"), ("fnmsub", "fns"), ("fnmadd", "fna"),
  ("feq", "feq"), ("flt", "flt"), ("fle", "fle"), ("fcvt_w_s", "fcs"), ("fcvt_wu_s", "fus"),
  ("fclass", "fcl"), ("fmv_x_w", "fxw"), ("fdiv", "fdi"), ("fsqrt", "fsq")]

def classify (label : String) : Operation :=
  match integerCodes.lookup label with
  | some code => instruction code
  | none =>
    match floatCodes.lookup label with
    | some code => instruction code
    | none =>
      match stallCodes.lookup label with
      | some code => stall code
      | none => unrecognized

end Operation

end TileTrace
