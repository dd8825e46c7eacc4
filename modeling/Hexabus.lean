import Hexabus.Lib.Bytes
import Hexabus.Lib.Store
import Hexabus.Lib.Crc
import Hexabus.Lib.Calendar
import Hexabus.Shared.Types
import Hexabus.Host.Deserialization
import Hexabus.Host.Reading
import Hexabus.Host.RoundTrip
import Hexabus.Firmware.Crc16
import Hexabus.Firmware.Memory
import Hexabus.Firmware.Packet
import Hexabus.Wire.HostToFirmware
import Hexabus.Shared.Tables
import Hexabus.Firmware.Eeprom
import Hexabus.Firmware.Registry
import Hexabus.Firmware.Locality
import Hexabus.Wire.FirmwareToHost
import Hexabus.Firmware.StateMachine
import Hexabus.Firmware.SingleFiring
import Hexabus.Lib.Runs
import Hexabus.Firmware.Process
import Hexabus.Firmware.InputOrder
import Hexabus.Firmware.Relay
import Hexabus.Asm.Syntax
import Hexabus.Asm.GraphBuilder
import Hexabus.Asm.Generator
import Hexabus.Lib.Folds
import Hexabus.Lib.FloatText
import Hexabus.Asm.Names
import Hexabus.Asm.Emission
import Hexabus.Asm.NameResolution
import Hexabus.Asm.Placement
import Hexabus.Asm.Tables
import Hexabus.Asm.Completeness
import Hexabus.Asm.Literals
import Hexabus.Upload.Layout
import Hexabus.Hbc.Preservation
import Hexabus.Hbc.HbaOutput
import Hexabus.Upload.Timeouts
import Hexabus.Firmware.RegistryRuns
import Hexabus.Lib.Heap
import Hexabus.Firmware.DatetimeService
import Hexabus.Firmware.Ticking
import Hexabus.Host.DeviceInterrogator
import Hexabus.Host.InterrogatorRuns
import Hexabus.Hbc.Shape
import Hexabus.Hbc.Slices
import Hexabus.Hbc.Halving
import Hexabus.Hbc.CompoundConditions
import Hexabus.Hbc.Pipeline
import Hexabus.Hbc.Elimination
import Hexabus.Hbc.StateVertices
import Hexabus.Hbc.ClausePriority
import Hexabus.Hbc.StartState
import Hexabus.Host.Filtering
import Hexabus.Host.Device
import Hexabus.Host.Dispatch
import Hexabus.Firmware.EventNumbers
import Hexabus.Upload.Session
import Hexabus.Upload.Agreement
import Hexabus.Upload.Abort
import Hexabus.Upload.Execution
import Hexabus.Lib.Bitmap
import Hexabus.Host.Hexinfo
import Hexabus.Wire.Descriptors
import Hexabus.Host.Attribution
import Hexabus.Lib.Network
import Hexabus.Wire.ErrorReplies
import Hexabus.Firmware.ResetIds
import Hexabus.Firmware.ResetStorm
import Hexabus.Hbc.DeviceSlices
import Hexabus.Hbc.DeviceWrites
import Hexabus.Hbc.DtypeFile
import Hexabus.Hbc.Expanded
import Hexabus.Hbc.Assembling
import Hexabus.Hbc.Acceptance
import Hexabus.Hbc.GeneratedFiles
import Hexabus.Hbc.Literals
import Hexabus.Lib.JsonTokens
import Hexabus.Lib.Json
import Hexabus.Host.DeviceListing
import Hexabus.Host.JsonStrings
import Hexabus.Host.ListingTokens
import Hexabus.Host.ReadBack
import Hexabus.Java.Checksum
import Hexabus.Host.Outcomes
import Hexabus.Host.Accepted
import Hexabus.Lib.Prefixes
import Hexabus.Host.NetAutoconf
import Hexabus.Host.InterrogatorProgress
import Hexabus.Host.Asking
import Hexabus.Host.PacketPusher
import Hexabus.Host.PusherProgress
import Hexabus.Host.Logger
import Hexabus.Host.LoggerRuns
import Hexabus.Lib.Base64
import Hexabus.Asm.Base64
import Hexabus.Firmware.IrReceiver
import Hexabus.Lib.Debounce
import Hexabus.Firmware.Button
import Hexabus.Firmware.ChunkConfinement
import Hexabus.Upload.DeviceName
import Hexabus.Firmware.CalendarCarry
import Hexabus.Firmware.Metering
import Hexabus.Firmware.StalePower
import Hexabus.Hbc.MultipleWrites
import Hexabus.Firmware.InStateTime
import Hexabus.Firmware.StateTimeouts
import Hexabus.Firmware.MeasurementIndex
import Hexabus.Host.UploadedName
import Hexabus.Lib.Search
import Hexabus.Hbc.GraphChecks
import Hexabus.Hbc.UniqueNames
import Hexabus.Hbc.IncludeHandling
import Hexabus.Upload.Retries
import Hexabus.Lib.Matching
import Hexabus.Host.FluksoReadings
import Hexabus.Hbc.ModuleInstantiation
import Hexabus.Lib.Expectation
import Hexabus.Hbc.Grammar
import Hexabus.Hbc.Written
import Hexabus.Hbc.ReadPrograms
import Hexabus.Lib.Choices
import Hexabus.Hbc.ReadRules
import Hexabus.Host.EndpointRegistry
import Hexabus.Host.MsgBridge
import Hexabus.Host.Historian
import Hexabus.Lib.SinglePrecision
import Hexabus.Firmware.Shutter
import Hexabus.Firmware.Pressure
import Hexabus.Firmware.BootCheck
import Hexabus.Firmware.UsbBootloader
import Hexabus.Firmware.UsbSessions
import Hexabus.Firmware.RadioSessions
import Hexabus.Firmware.UsbTransfer
import Hexabus.Lib.ShellWords
import Hexabus.Web.Strings
import Hexabus.Web.Numbers
import Hexabus.Web.CommandLines
import Hexabus.Lib.Properties
import Hexabus.Web.Values
import Hexabus.Web.DeviceTree
import Hexabus.Web.EndpointLookup
import Hexabus.Web.Persistence
import Hexabus.Web.SavedTrees
import Hexabus.Web.SavedRuns
import Hexabus.Hbc.ReadMachines
import Hexabus.Hbc.ReadBlocks
import Hexabus.Hbc.Arguments
import Hexabus.Hbc.CompiledDefinitions
import Hexabus.Lib.Kleene
import Hexabus.Host.FilterExpressions
import Hexabus.Firmware.Provisioning
import Hexabus.Firmware.ProvisioningRuns
import Hexabus.Lib.UrlEncoding
import Hexabus.Lib.Delimited
import Hexabus.Firmware.Psock
import Hexabus.Firmware.Httpd
import Hexabus.Firmware.ConfigForm
import Hexabus.Host.ReceiveLoop
import Hexabus.Host.ReceiveLoopRuns
import Hexabus.Java.Packets
import Hexabus.Java.Values
import Hexabus.Java.RoundTrips
import Hexabus.Hbc.HbaRoundTrip
import Hexabus.Upload.SourceRuns
