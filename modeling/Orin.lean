import Orin.Boot.Stub
import Orin.Console.Uart
import Orin.Console.Vga.Advance
import Orin.Console.Vga.Colour
import Orin.Console.Vga.Tail
import Orin.Cpu.BringUp
import Orin.Drivers.Keyboard.Board
import Orin.Drivers.Keyboard.Drain
import Orin.Drivers.Keyboard.Modifiers
import Orin.Interrupts.Delivery
import Orin.Interrupts.DoubleFault
import Orin.Interrupts.Gdt
import Orin.Interrupts.Requests
import Orin.Kmain.AddressSpace
import Orin.Kmain.Echo
import Orin.Kmain.Overflow
import Orin.Kmain.Preemption
import Orin.Memory.Pmm.Canary
import Orin.Memory.Pmm.Fit
import Orin.Memory.Pmm.Order
import Orin.Memory.Vmm.Agree
import Orin.Memory.Vmm.Rights
import Orin.Multiboot.Footprint
import Orin.Multiboot.Layout
import Orin.Multiboot.Typos
import Orin.Panic.Backtrace
import Orin.Panic.Dump
import Orin.Panic.Theorems
import Orin.Selftest.Suite
