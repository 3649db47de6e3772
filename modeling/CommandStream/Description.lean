import CommandStream.Fault
import CommandStream.Json.Printer
import CommandStream.Json.Reader
import CommandStream.Json.Shape
import CommandStream.Layer

/-! # Network descriptions

A network is described as JSON text: the fields of every record under fixed names, segments as
objects with their kind as the only member. The same forms describe parts of a network inside other
documents, where the count of a block must be named.
-/

namespace CommandStream.Description

open Json Json.Form Json.Shape

def direction : Form Direction := name Direction.all Direction.key (by intro d; cases d <;> decide)

def opcode : Form Opcode := name Opcode.all Opcode.key (by intro op; cases op <;> decide)

def syncKind : Form SyncKind := name SyncKind.all SyncKind.key (by intro k; cases k <;> decide)

def layerKind : Form LayerKind := name LayerKind.all LayerKind.key (by intro k; cases k <;> decide)

def activation : Form Activation :=
  name Activation.all Activation.key (by intro a; cases a <;> decide)

def edgeSet : Form EdgeSet := u8.map EdgeSet.mk EdgeSet.bits EdgeSet.mk_bits

def transferShape : Shape Transfer :=
  ((required "direction" direction).pair <| (optional "bias_offset" bool false).pair <|
    (optional "kernel_offset" bool false).pair <| (optional "padding" edgeSet {}).pair <|
    (required "cluster" u32).pair <| (required "unit_mask" u32).pair <|
    (required "mm_addr" u64).pair <| (required "lm_addr" u32).pair <|
    (optional "y_leap" u16 1).pair <| (required "x_size" u16).pair <|
    (optional "y_size" u16 1).pair <| optional "skipped" u8 0).map
    Transfer.ofFields Transfer.toFields Transfer.ofFields_toFields

def transfer : Form Transfer := transferShape.form (by decide)

def transferLoopShape : Shape TransferLoop :=
  ((required "cluster_len" u8).pair <| (required "cluster_shift" i8).pair <|
    (required "unit_len" u8).pair <| (required "unit_shift" i8).pair <|
    (required "inter_unit_len" u8).pair <| (required "lm_incr" i16).pair <|
    (required "mm_incr" i32).pair <| (required "count" u16).pair <| required "base" transfer).map
    TransferLoop.ofFields TransferLoop.toFields TransferLoop.ofFields_toFields

def transferLoop : Form TransferLoop := transferLoopShape.form (by decide)

def computeShape : Shape Compute :=
  ((optional "op" opcode .convStart).pair <| (optional "lane" u8 0).pair <|
    (optional "buffer" u16 0).pair <| (optional "xend" u16 0).pair <|
    (optional "yend" u16 0).pair <| (optional "zend" u16 0).pair <|
    (optional "offset" u16 0).pair <| (optional "shift_right" i16 0).pair <|
    (optional "kernel_l0" u16 0).pair <| (optional "kernel_l1" u16 0).pair <|
    (optional "bias_l0" u16 0).pair <| (optional "bias_l1" u16 0).pair <|
    (optional "deform_offset" u16 0).pair <| (optional "deform_output" u16 0).pair <|
    (optional "lm_lane_stride" i16 1024).pair <| optional "nops" u8 0).map
    Compute.ofFields Compute.toFields Compute.ofFields_toFields

def compute : Form Compute := computeShape.form (by decide)

def padWidthsShape : Shape PadWidths :=
  ((optional "top" i32 0).pair <| (optional "left" i32 0).pair <|
    (optional "bottom" i32 0).pair <| (optional "right" i32 0).pair <| optional "value" i32 0).map
    PadWidths.ofFields PadWidths.toFields PadWidths.ofFields_toFields

def padWidths : Form PadWidths := padWidthsShape.form (by decide)

def scatterShape : Shape Scatter :=
  ((optional "index_shift" i16 0).pair <| (optional "xmin_fixed" i16 0).pair <|
    (optional "ymin_fixed" i16 0).pair <| (optional "mm_addr_coords" u32 0).pair <|
    (optional "mm_addr_features" u32 0).pair <| (optional "mm_addr_grid" u32 0).pair <|
    (optional "memcopy_size" u16 0).pair <| optional "use_vpro_dma" bool false).map
    Scatter.ofFields Scatter.toFields Scatter.ofFields_toFields

def scatter : Form Scatter := scatterShape.form (by decide)

def imageShape : Shape Image :=
  ((optional "mm_base" u32 0).pair <| (optional "x" u32 0).pair <| (optional "y" u32 0).pair <|
    (optional "y_stride" u32 0).pair <| optional "channels" u32 0).map
    Image.ofFields Image.toFields Image.ofFields_toFields

def image : Form Image := imageShape.form (by decide)

def layerParamsShape : Shape LayerParams :=
  ((optional "in_channels" u16 0).pair <| (optional "out_channels" u16 0).pair <|
    (optional "number" u16 0).pair <| (optional "kind" layerKind .unknown).pair <|
    (optional "stride" u16 0).pair <| (optional "kernel_length" u16 0).pair <|
    (optional "conv_groups" u32 0).pair <| (optional "dilation_rate_w" u16 0).pair <|
    (optional "dilation_rate_h" u16 0).pair <| (optional "seg_out_w" u16 0).pair <|
    (optional "seg_out_h" u16 0).pair <| (optional "seg_in_w" u16 0).pair <|
    (optional "seg_in_h" u16 0).pair <| (optional "conv_result_shift_right" i16 0).pair <|
    (optional "relu6_shift_left" i16 0).pair <| (optional "alpha_mulh_shift_right" i16 0).pair <|
    (optional "bias_shift_right" i16 0).pair <| (optional "store_shift_right" i16 0).pair <|
    (optional "elwise1_left_shift" i16 0).pair <| (optional "elwise0_left_shift" i16 0).pair <|
    (optional "elwise1_right_shift" i16 0).pair <| (optional "elwise0_right_shift" i16 0).pair <|
    (optional "pool_stride" u16 0).pair <| (optional "activation" activation .none).pair <|
    (optional "alpha" u16 0).pair <| (optional "pad" padWidths {}).pair <|
    (optional "input" image {}).pair <| (optional "output" image {}).pair <|
    (optional "axis" u16 0).pair <| (optional "dynamic_shape" u16 0).pair <|
    (optional "block_size" u16 0).pair <| (optional "last_layer_using_input" bool false).pair <|
    (optional "first_layer_producing_output" bool false).pair <|
    (optional "pool_size_w" u16 0).pair <| (optional "pool_size_h" u16 0).pair <|
    (optional "pool_size_ch" u16 0).pair <| (optional "pool_stride_w" u16 0).pair <|
    (optional "pool_stride_h" u16 0).pair <| (optional "pool_stride_ch" u16 0).pair <|
    (optional "pool_avg_shiftr" u16 0).pair <| (optional "deform_static_offsets" u16 0).pair <|
    (optional "deform_max_offset_x" u16 0).pair <| (optional "deform_max_offset_y" u16 0).pair <|
    (optional "parallel_out" u16 1).pair <| (optional "parallel_in" u16 1).pair <|
    (optional "subpixel_pad" padWidths {}).pair <| (optional "input_pixels_w" u16 0).pair <|
    optional "input_pixels_h" u16 0).map
    LayerParams.ofFields LayerParams.toFields LayerParams.ofFields_toFields

def layerParams : Form LayerParams := layerParamsShape.form (by decide)

def blockShape : Shape UInt32 := required "count" u32

def tagged (key : String) (v : Json) : Json := .object [(some key, v)]

theorem plain_tagged (key : String) {v : Json} (h : v.Plain) : (tagged key v).Plain := by
  refine .object ?_ ?_ <;> intro m hm <;> rw [List.mem_singleton.1 hm]
  · exact ⟨key, rfl⟩
  · exact h

/-- A segment, with a form for what is said of a block. -/
def segmentWith (block : Form UInt32) : Form Segment where
  write s := match s with
    | .transfer t => tagged "transfer" (transfer.write t)
    | .loop l => tagged "loop" (transferLoop.write l)
    | .compute c => tagged "compute" (compute.write c)
    | .block count => tagged "block" (block.write count)
    | .sync kind => tagged "sync" (syncKind.write kind)
    | .padding p => tagged "padding" (padWidths.write p)
    | .scatter s => tagged "scatter" (scatter.write s)
  read
    | .object [(some "transfer", v)] => (transfer.read v).map .transfer
    | .object [(some "loop", v)] => (transferLoop.read v).map .loop
    | .object [(some "compute", v)] => (compute.read v).map .compute
    | .object [(some "block", v)] => (block.read v).map .block
    | .object [(some "sync", v)] => (syncKind.read v).map .sync
    | .object [(some "padding", v)] => (padWidths.read v).map .padding
    | .object [(some "scatter", v)] => (scatter.read v).map .scatter
    | _ => none
  read_write s := by
    cases s <;> simp [tagged, Form.read_write]
  plain s := by
    cases s <;> exact plain_tagged _ (Form.plain _ _)

def layerWith (segment : Form Segment) : Form Layer :=
  (((required "params" layerParams).pair <| optional "segments" (list segment) []).map
    (fun (params, segments) => { params, segments })
    (fun l => (l.params, l.segments))
    (fun _ => rfl)).form (show ["params", "segments"].Nodup by decide)

def netWith (layer : Form Layer) : Form Net :=
  (((required "layers" (list layer)).pair <| required "exec_list" (list u32)).map
    (fun (layers, execList) => { layers, execList })
    (fun n => (n.layers, n.execList))
    (fun _ => rfl)).form (show ["layers", "exec_list"].Nodup by decide)

def segment : Form Segment := segmentWith (blockShape.form (by decide))

def layer : Form Layer := layerWith segment

def net : Form Net := netWith layer

def innerSegment : Form Segment := segmentWith (blockShape.namedForm (by decide))

def innerLayer : Form Layer := layerWith innerSegment

def innerNet : Form Net := netWith innerLayer

end CommandStream.Description

namespace CommandStream.Net

def ofDescription (text : String) : Except Fault Net :=
  match Json.parse? text >>= Description.net.read with
  | some net => .ok net
  | none => .error .description

def toDescription (net : Net) : String := (Description.net.write net).pretty

end CommandStream.Net
